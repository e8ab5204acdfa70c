import ServletContainer.Proofs.Deployment.Incremental

/-! Committed batches. The changes decide everything but where elements are enabled
(`blank_rearbitrate`), and that is arbitrated again. A deployment is sound if nothing is enabled that
arbitrating everything would not enable, and complete if moreover nothing is missing. All batches
keep a deployment sound (`Commits.sound`), and those that revive nothing keep it complete
(`Commits.complete`); what a batch misses is described exactly (`Misses`). -/
namespace ServletContainer

namespace Deployment

variable {d d' e before after : Deployment} {cs : List Change} {id : ElementId} {s : Deployed}

section Blank

theorem blank_rearbitrate (before after : Deployment) :
    (rearbitrate before after).1.blank = after.blank := by
  have helements : (rearbitrate before after).1.blank.elements = after.blank.elements := by
    refine OrdMap.ext_find? fun id => ?_
    rw [find?_blank, find?_blank, find?_rearbitrate, Option.map_map]
    refine congrArg (Option.map · (after.elements.find? id)) (funext fun s => ?_)
    simp only [Function.comp_apply]
    split <;> rfl
  exact congrArg (fun es => { after.blank with elements := es }) helements

theorem find?_of_blank (h : d.blank = e.blank) (hs : d.elements.find? id = some s) :
    ∃ t, e.elements.find? id = some t ∧ t.element = s.element := by
  have hb := congrArg (fun d => d.elements.find? id) h
  simp only [find?_blank, hs, Option.map_some] at hb
  obtain ⟨t, ht, hts⟩ := Option.map_eq_some_iff.1 hb.symm
  exact ⟨t, ht, (Deployed.mk.inj hts).1⟩

theorem Keyed.of_blank (hd : d.Keyed) (h : d.blank = e.blank) : e.Keyed := by
  intro id s hs
  obtain ⟨t, ht, hts⟩ := find?_of_blank h.symm hs
  exact hts ▸ hd id t ht

theorem resolver_blank (d : Deployment) : d.blank.resolver = d.resolver := by
  simp only [resolver, elementList, blank, OrdMap.values, OrdMap.mapWithKey, List.map_map]
  rfl

theorem arbitrated_blank (d : Deployment) (id : ElementId) :
    d.blank.arbitrated id = d.arbitrated id := by
  rw [arbitrated, resolver_blank]
  rfl

theorem arbitrated_of_blank (h : d.blank = e.blank) (id : ElementId) :
    d.arbitrated id = e.arbitrated id := by
  rw [← arbitrated_blank, h, arbitrated_blank]

theorem isTouched_blank (before after : Deployment) (id : ElementId) :
    isTouched before after.blank id = isTouched before after id := by
  unfold isTouched
  rw [find?_blank]
  cases before.elements.find? id <;> cases after.elements.find? id <;> rfl

theorem seeds_blank (before after : Deployment) : seeds before after.blank = seeds before after := by
  have hids : idsOf before after.blank = idsOf before after := by
    simp [idsOf, blank, OrdMap.keys, OrdMap.mapWithKey, Function.comp_def]
  have hslots (id : ElementId) : after.blank.slotsOfId id = after.slotsOfId id := by
    simp only [slotsOfId, find?_blank]
    cases after.elements.find? id <;> rfl
  simp only [seeds, touched, hids, hslots]
  rw [funext (isTouched_blank before after)]

theorem passedOver_blank : PassedOver before after.blank id ↔ PassedOver before after id := by
  rw [PassedOver, PassedOver, isTouched_blank, seeds_blank, resolver_blank, find?_blank]
  refine and_congr_right fun _ => ?_
  cases after.elements.find? id with
  | none => simp
  | some s =>
    simp only [Option.map_some, Option.some.injEq, forall_eq']
    rfl

theorem passedOver_of_blank (h : after.blank = e.blank) :
    PassedOver before after id ↔ PassedOver before e id := by
  rw [← passedOver_blank, h, passedOver_blank]

end Blank

/-- The batch is valid, and `d'` is the deployment after it. -/
def Commits (d : Deployment) (cs : List Change) (d' : Deployment) : Prop :=
  ∃ m, d.Becomes cs m ∧ d' = (rearbitrate d m).1

def Sound (d : Deployment) : Prop :=
  ∀ id, d.enabledIn id = ∅ ∨ d.enabledIn id = d.arbitrated id

/-- Everything is enabled where arbitrating everything enables it. -/
def Complete (d : Deployment) : Prop :=
  ∀ id, d.enabledIn id = d.arbitrated id

theorem Complete.sound (h : d.Complete) : d.Sound := fun id => .inr (h id)

/-- The batch leaves an element disabled that is to be enabled: it passes over the element, which it
has put back itself or which was left disabled before. -/
def Misses (d : Deployment) (cs : List Change) (d' : Deployment) (id : ElementId) : Prop :=
  PassedOver d d' id ∧ d'.arbitrated id ≠ ∅ ∧ (Adds cs id ∨ d.enabledIn id = ∅)

section Commits

theorem Commits.blank (h : d.Commits cs d') : ∃ m, d.Becomes cs m ∧ d'.blank = m.blank := by
  obtain ⟨m, hm, rfl⟩ := h
  exact ⟨m, hm, blank_rearbitrate d m⟩

theorem Commits.unique {e : Deployment} (h : d.Commits cs d') (he : d.Commits cs e) : d' = e := by
  obtain ⟨m, hm, rfl⟩ := h
  obtain ⟨n, hn, rfl⟩ := he
  rw [hm.unique hn]

theorem Commits.keyed (h : d.Commits cs d') (hd : d.Keyed) : d'.Keyed := by
  obtain ⟨m, hm, hb⟩ := h.blank
  exact (hm.keyed hd).of_blank hb.symm

/-- Who is not passed over gets what arbitrating everything gives. -/
theorem Commits.enabledIn_eq (h : d.Commits cs d') (hd : d.Keyed) (hp : ¬ PassedOver d d' id) :
    d'.enabledIn id = d'.arbitrated id := by
  obtain ⟨m, hm, rfl⟩ := h
  rw [passedOver_of_blank (blank_rearbitrate d m)] at hp
  rw [enabledIn_rearbitrate (hm.keyed hd) hp, arbitrated_of_blank (blank_rearbitrate d m)]

/-- Who is passed over keeps what it had, unless the batch has put it back. -/
theorem Commits.enabledIn_of_passedOver (h : d.Commits cs d') (hd : d.Keyed)
    (hp : PassedOver d d' id) :
    (d'.enabledIn id = ∅ ∧ Revives cs id ∨ ¬ Adds cs id ∧ d'.enabledIn id = d.enabledIn id) ∧
      d'.arbitrated id = d.arbitrated id := by
  obtain ⟨m, hm, rfl⟩ := h
  have hb := blank_rearbitrate d m
  rw [passedOver_of_blank hb] at hp
  have hpm : m.policy = d.policy := hm.settings.1
  rw [arbitrated_of_blank hb, hp.enabledIn_eq (hm.keyed hd)]
  refine ⟨?_, hp.arbitrated_eq hd (hm.keyed hd) hpm⟩
  obtain ⟨t, s, ht, hs, _⟩ := isTouched_eq_false.1 hp.1
  rw [enabledIn_of_find? hs, enabledIn_of_find? ht]
  rcases hm.enabledIn hs with ⟨hempty, ha⟩ | ⟨ha, u, hu, hsu⟩
  · exact .inl ⟨hempty, hm.revives ht ha⟩
  · cases ht.symm.trans hu
    exact .inr ⟨ha, hsu⟩

theorem Commits.sound (h : d.Commits cs d') (hd : d.Keyed) (hs : d.Sound) : d'.Sound := by
  intro id
  by_cases hp : PassedOver d d' id
  · obtain ⟨⟨hempty, _⟩ | ⟨_, heq⟩, harb⟩ := h.enabledIn_of_passedOver hd hp
    · exact .inl hempty
    · rw [heq, harb]
      exact hs id
  · exact .inr (h.enabledIn_eq hd hp)

/-- What was enabled as arbitrating everything enables it is so again, unless the batch has put it
back. -/
theorem Commits.enabledIn_kept (h : d.Commits cs d') (hd : d.Keyed)
    (hid : d.enabledIn id = d.arbitrated id) (hcs : ¬ Revives cs id) :
    d'.enabledIn id = d'.arbitrated id := by
  by_cases hp : PassedOver d d' id
  · obtain ⟨⟨_, hr⟩ | ⟨_, heq⟩, harb⟩ := h.enabledIn_of_passedOver hd hp
    · exact absurd hr hcs
    · rw [heq, harb]
      exact hid
  · exact h.enabledIn_eq hd hp

theorem Commits.complete (h : d.Commits cs d') (hd : d.Keyed) (hs : d.Complete)
    (hcs : ∀ id, ¬ Revives cs id) : d'.Complete :=
  fun id => h.enabledIn_kept hd (hs id) (hcs id)

/-- From a sound deployment, a batch misses exactly what arbitrating everything would enable
otherwise. -/
theorem Commits.misses_iff (h : d.Commits cs d') (hd : d.Keyed) (hs : d.Sound) :
    Misses d cs d' id ↔ d'.enabledIn id ≠ d'.arbitrated id := by
  constructor
  · rintro ⟨hp, hne, hor⟩ heq
    refine hne (heq ▸ ?_)
    rcases (h.enabledIn_of_passedOver hd hp).1 with ⟨hempty, _⟩ | ⟨hno, hkeep⟩
    · exact hempty
    · exact hkeep.trans (hor.resolve_left hno)
  · intro hne
    have hp : PassedOver d d' id := by
      by_contra hp
      exact hne (h.enabledIn_eq hd hp)
    have hempty := (h.sound hd hs id).resolve_right hne
    refine ⟨hp, fun harb => hne (hempty.trans harb.symm), ?_⟩
    rcases (h.enabledIn_of_passedOver hd hp).1 with ⟨_, hr⟩ | ⟨_, hkeep⟩
    · exact .inl hr.adds
    · exact .inr (hkeep ▸ hempty)

section Joining

variable {d₁ d₂ : Deployment} {xs ys : List Change}

/-- Two batches make the same changes as both of them in one. -/
theorem Commits.blank_append (h₁ : d.Commits xs d₁) (h₂ : d₁.Commits ys d₂)
    (h : d.Commits (xs ++ ys) d') : d'.blank = d₂.blank := by
  obtain ⟨m₁, hm₁, hb₁⟩ := h₁.blank
  obtain ⟨m₂, hm₂, hb₂⟩ := h₂.blank
  obtain ⟨m, hm, hb⟩ := h.blank
  obtain ⟨l, hl, hm⟩ := becomes_append.1 hm
  cases hl.unique hm₁
  rw [hb, hb₂]
  exact hm.blank.unique (hb₁ ▸ hm₂.blank)

/-- They enable an element in the same mounts exactly if both of them miss it, or neither. -/
theorem Commits.enabledIn_append_iff (h₁ : d.Commits xs d₁) (h₂ : d₁.Commits ys d₂)
    (h : d.Commits (xs ++ ys) d') (hd : d.Keyed) (hs : d.Sound) :
    d'.enabledIn id = d₂.enabledIn id ↔ (Misses d (xs ++ ys) d' id ↔ Misses d₁ ys d₂ id) := by
  have hd₁ := h₁.keyed hd
  have hs₁ := h₁.sound hd hs
  have harb := arbitrated_of_blank (h₁.blank_append h₂ h) id
  rw [h.misses_iff hd hs, h₂.misses_iff hd₁ hs₁, harb]
  rcases h.sound hd hs id with he | he <;> rcases h₂.sound hd₁ hs₁ id with he₂ | he₂ <;>
    rw [he, he₂] <;> simp [harb, eq_comm]

end Joining

end Commits

end Deployment

end ServletContainer
