import ServletContainer.Proofs.Deployment.Entries
import ServletContainer.Proofs.Deployment.Switches

/-! Which copies of elements are deployed. A retargeted element is another copy, with a number that no
deployed copy has had so far (`Numbered`). So after a batch the same copy of an element is deployed as
before exactly if the last change that placed it, if any did, put this very copy there
(`Commits.element_eq_iff`); and only such an element is not switched where it is enabled before and after
(`not_switched_iff`), however much the copies are alike. -/
namespace ServletContainer

def Change.places (id : ElementId) : Change → Bool
  | .addElement e => e.id = id
  | .retarget j _ => j = id
  | _ => false

def Change.nextCopy (n : Nat) : Change → Nat
  | .addElement e => max n (e.copy + 1)
  | .retarget .. => n + 1
  | _ => n

theorem Change.le_nextCopy (n : Nat) (c : Change) : n ≤ c.nextCopy n := by
  cases c <;> simp [nextCopy]

def lastPlacing (cs : List Change) (id : ElementId) : Option Change :=
  (cs.filter (·.places id)).getLast?

theorem lastPlacing_concat (cs : List Change) (c : Change) (id : ElementId) :
    lastPlacing (cs ++ [c]) id = if c.places id then some c else lastPlacing cs id := by
  unfold lastPlacing
  rw [List.filter_append]
  split
  · rename_i h
    simp [h]
  · rename_i h
    simp [h]

def Keeps (cs : List Change) (e : Element) : Prop :=
  ∀ c ∈ lastPlacing cs e.id, c = .addElement e

instance (cs : List Change) (e : Element) : Decidable (Keeps cs e) :=
  inferInstanceAs (Decidable (∀ c ∈ lastPlacing cs e.id, c = .addElement e))

namespace Deployment

variable {d d' m before after : Deployment} {c : Change} {cs : List Change} {id : ElementId}
  {s t : Deployed} {refresh : OrdSet ContextPath} {p : ContextPath}

section Numbers

/-- All copies that are deployed have numbers below that of the next one. -/
def Numbered (d : Deployment) : Prop :=
  ∀ id s, d.elements.find? id = some s → s.element.copy < d.nextCopy

theorem nextCopy_of_apply (h : d.apply c = .ok m) : m.nextCopy = c.nextCopy d.nextCopy := by
  cases c with
  | addPhysical p =>
    cases h
    rfl
  | addElement e =>
    obtain ⟨_, rfl⟩ := addElement_ok h
    rfl
  | removeElement j =>
    obtain ⟨_, rfl⟩ := removeElement_ok h
    rfl
  | retarget j ts =>
    obtain ⟨_, _, rfl⟩ := retarget_ok h
    rfl
  | refreshFilters p =>
    simp only [apply] at h
    split at h <;> cases h
    rfl
  | _ =>
    obtain ⟨_, _, rfl⟩ := exists_of_map_ok h
    rfl

theorem entryAfter_places (h : d.entryAfter c id = some t) :
    (c.places id = false ∧ d.elements.find? id = some t) ∨
      c.places id = true ∧ (c = .addElement t.element ∨
        ∃ ts, c = .retarget id ts ∧ t.element.copy = d.nextCopy) := by
  cases c with
  | addElement e =>
    simp only [entryAfter] at h
    split at h
    · rename_i he
      cases h
      exact .inr ⟨by simp [Change.places, he], .inl rfl⟩
    · rename_i hne
      exact .inl ⟨by simpa [Change.places] using Ne.symm hne, h⟩
  | removeElement j =>
    simp only [entryAfter] at h
    split at h
    · cases h
    · exact .inl ⟨rfl, h⟩
  | retarget j ts =>
    simp only [entryAfter] at h
    split at h
    · rename_i hj
      obtain ⟨s, _, rfl⟩ := Option.map_eq_some_iff.1 h
      exact .inr ⟨by simp [Change.places, hj], .inr ⟨ts, hj ▸ rfl, rfl⟩⟩
    · rename_i hne
      exact .inl ⟨by simpa [Change.places] using hne, h⟩
  | _ => exact .inl ⟨rfl, h⟩

theorem Numbered.apply (hd : d.Numbered) (h : d.apply c = .ok m) : m.Numbered := by
  intro id t ht
  rw [(leads_of_apply h).elements] at ht
  rw [nextCopy_of_apply h]
  rcases entryAfter_places ht with ⟨_, ht⟩ | ⟨_, rfl | ⟨ts, rfl, hcopy⟩⟩
  · exact (hd id t ht).trans_le (c.le_nextCopy _)
  · exact Nat.lt_of_lt_of_le (Nat.lt_succ_self _) (Nat.le_max_right ..)
  · rw [hcopy]
    exact Nat.lt_succ_self _

theorem Becomes.numbered (h : d.Becomes cs m) (hd : d.Numbered) : m.Numbered :=
  h.preserves (P := Numbered) (fun _ _ _ hb ha => ha.apply hb) hd

theorem Becomes.nextCopy_le (h : d.Becomes cs m) : d.nextCopy ≤ m.nextCopy :=
  h.preserves (P := fun a => d.nextCopy ≤ a.nextCopy)
    (fun _ c _ hb ha => ha.trans (nextCopy_of_apply hb ▸ c.le_nextCopy _)) (Nat.le_refl _)

theorem Commits.numbered (h : d.Commits cs d') (hd : d.Numbered) : d'.Numbered := by
  obtain ⟨m, hm, hblank⟩ := h.blank
  intro id s hs
  obtain ⟨t, ht, hts⟩ := find?_of_blank hblank hs
  rw [show d'.nextCopy = m.nextCopy from congrArg (·.nextCopy) hblank, ← hts]
  exact hm.numbered hd id t ht

end Numbers

section Placing

/-- The last change that placed an element decides which copy is deployed; a retargeted one is new. -/
theorem Becomes.last_placing (h : d.Becomes cs m) (ht : m.elements.find? id = some t) :
    (lastPlacing cs id = none ∧ ∃ s, d.elements.find? id = some s ∧ t.element = s.element) ∨
      lastPlacing cs id = some (.addElement t.element) ∨
      (∃ ts, lastPlacing cs id = some (.retarget id ts)) ∧ d.nextCopy ≤ t.element.copy := by
  induction cs using List.reverseRecOn generalizing m t with
  | nil =>
    rw [becomes_nil.1 h]
    exact .inl ⟨rfl, t, ht, rfl⟩
  | append_singleton cs c ih =>
    obtain ⟨a, ha, hc⟩ := becomes_append.1 h
    obtain ⟨b, hb, hbm⟩ := becomes_cons.1 hc
    obtain rfl := becomes_nil.1 hbm
    rw [(leads_of_apply hb).elements] at ht
    rw [lastPlacing_concat]
    rcases entryAfter_places ht with ⟨hno, ht⟩ | ⟨hplaces, hc⟩
    · rw [if_neg (by simp [hno])]
      exact ih ha ht
    · rw [if_pos hplaces]
      refine .inr (hc.imp (congrArg some) fun ⟨ts, hts, hcopy⟩ => ?_)
      exact ⟨⟨ts, congrArg some hts⟩, hcopy ▸ ha.nextCopy_le⟩

theorem Becomes.element_eq_iff (h : d.Becomes cs m) (hk : d.Keyed) (hn : d.Numbered)
    (hs : d.elements.find? id = some s) (ht : m.elements.find? id = some t) :
    t.element = s.element ↔ Keeps cs s.element := by
  rw [Keeps, hk id s hs]
  rcases h.last_placing ht with ⟨hnone, s', hs', heq⟩ | hadd | ⟨⟨ts, hretarget⟩, hcopy⟩
  · cases hs.symm.trans hs'
    simp [hnone, heq]
  · simp [hadd]
  · have hlt := hn id s hs
    have hne : t.element ≠ s.element := by
      intro heq
      rw [heq] at hcopy
      omega
    simp [hretarget, hne]

theorem Commits.element_eq_iff (h : d.Commits cs d') (hk : d.Keyed) (hn : d.Numbered)
    (hs : d.elements.find? id = some s) (ht : d'.elements.find? id = some t) :
    t.element = s.element ↔ Keeps cs s.element := by
  obtain ⟨m, hm, hblank⟩ := h.blank
  obtain ⟨u, hu, hut⟩ := find?_of_blank hblank ht
  rw [← hut]
  exact hm.element_eq_iff hk hn hs hu

end Placing

section Switching

theorem mem_enabledOnlyIn_iff_ne {other : Deployment} (hs : d.elements.find? id = some s)
    (ht : other.elements.find? id = some t) (hp : p ∈ s.enabledIn.elems) (hp' : p ∈ t.enabledIn.elems) :
    p ∈ d.enabledOnlyIn other (isReplaced d other id) id ↔ t.element ≠ s.element := by
  have hreplaced : isReplaced d other id ↔ t.element ≠ s.element := by
    rw [isReplaced, hs, ht, bne_iff_ne]
    exact ne_comm
  rw [mem_enabledOnlyIn, enabledIn_of_find? hs, enabledIn_of_find? ht, ← hreplaced]
  exact ⟨fun h => h.2.resolve_right (not_not.2 hp'), fun h => ⟨hp, .inl h⟩⟩

/-- An element that is enabled in a mount before and after is switched there exactly if it is another
copy, even if that is a copy of the same. -/
theorem not_switched_iff (hb : before.Keyed) (ha : after.Keyed)
    (hs : before.elements.find? id = some s) (ht : after.elements.find? id = some t)
    (hp : p ∈ s.enabledIn.elems) (hp' : p ∈ t.enabledIn.elems) :
    (∀ f ∈ effects before after refresh, f.post? ≠ some (id, p)) ↔ t.element = s.element := by
  have honly {d other : Deployment} {x y : Deployed} (hx : d.elements.find? id = some x)
      (hy : other.elements.find? id = some y) (hpx : p ∈ x.enabledIn.elems)
      (hpy : p ∈ y.enabledIn.elems) : d.onlyAt other (id, p) = none ↔ y.element = x.element := by
    rw [← not_ne_iff (a := y.element), ← mem_enabledOnlyIn_iff_ne hx hy hpx hpy,
      Option.eq_none_iff_forall_ne_some]
    exact ⟨fun h hp => h x (onlyAt_eq_some.2 ⟨hx, hp⟩), fun h y hy => h (onlyAt_eq_some.1 hy).2⟩
  have hswitch : (∀ f ∈ effects before after refresh, f.post? ≠ some (id, p)) ↔
      switchAt before after (id, p) = [] := by
    rw [List.eq_nil_iff_forall_not_mem]
    exact forall_congr' fun f => not_and.symm.trans (not_congr (mem_switchAt hb ha)).symm
  rw [hswitch, switchAt, List.append_eq_nil_iff, List.map_eq_nil_iff, List.map_eq_nil_iff,
    Option.toList_eq_nil_iff, Option.toList_eq_nil_iff, honly hs ht hp hp', honly ht hs hp' hp]
  exact and_iff_left_of_imp Eq.symm

/-- What is deployed, and where it is enabled, copy numbers aside. -/
def originals (d : Deployment) : OrdMap ElementId Deployed :=
  d.elements.mapWithKey fun _ s => { s with element := s.element.original }

/-- The same contexts, and the same elements enabled in the same mounts, if maybe as other copies. -/
def Same (d e : Deployment) : Prop :=
  e.contexts = d.contexts ∧ e.originals = d.originals

instance (d e : Deployment) : Decidable (d.Same e) :=
  inferInstanceAs (Decidable (e.contexts = d.contexts ∧ e.originals = d.originals))

theorem Same.symm (h : before.Same after) : after.Same before := ⟨h.1.symm, h.2.symm⟩

theorem Same.exists_find? (h : before.Same after) (hs : before.elements.find? id = some s) :
    ∃ t, after.elements.find? id = some t ∧ t.enabledIn = s.enabledIn := by
  have horiginal := congrArg (·.find? id) h.2
  simp only [originals, OrdMap.find?_mapWithKey, hs, Option.map_some] at horiginal
  obtain ⟨t, ht, hts⟩ := Option.map_eq_some_iff.1 horiginal
  exact ⟨t, ht, (Deployed.mk.inj hts).2⟩

theorem Same.mem_enabledOnlyIn (h : before.Same after)
    (hp : p ∈ before.enabledOnlyIn after (isReplaced before after id) id) :
    ∃ s t, before.elements.find? id = some s ∧ after.elements.find? id = some t ∧
      p ∈ s.enabledIn.elems ∧ t.element ≠ s.element := by
  obtain ⟨henabled, hor⟩ := Deployment.mem_enabledOnlyIn.1 hp
  obtain ⟨s, hs, hsp⟩ := mem_enabledIn.1 henabled
  obtain ⟨t, ht, hts⟩ := h.exists_find? hs
  refine ⟨s, t, hs, ht, hsp, fun heq => ?_⟩
  rw [enabledIn_of_find? ht, hts] at hor
  simpa [isReplaced, hs, ht, heq] using hor.resolve_right (not_not.2 hsp)

theorem effects_eq_nil (hb : before.Coherent) (ha : after.Coherent)
    (hcontexts : after.contexts = before.contexts)
    (hswitch : ∀ id f, f ∉ switchEffects before after id) : effects before after ∅ = [] := by
  have hstays {d : Deployment} (hd : d.Coherent) {i : ContextId} {c : LogicalContext}
      (hc : d.contexts.find? i = some c) : ¬ isMoved d c := fun hmoved =>
    isMoved_iff.1 hmoved c (hd.wellFormed.keyed i c hc ▸ hc) ⟨rfl, rfl⟩
  refine List.eq_nil_iff_forall_not_mem.2 fun f hf => ?_
  cases f with
  | createPhysical p =>
    obtain ⟨hin, hout⟩ := createPhysical_mem_effects.1 hf
    rw [hcontexts, hout] at hin
    cases hin
  | destroyPhysical p =>
    obtain ⟨hin, hout⟩ := destroyPhysical_mem_effects.1 hf
    rw [← hcontexts, hout] at hin
    cases hin
  | bindContext c =>
    obtain ⟨⟨i, hc⟩, hmoved⟩ := bindContext_mem_effects.1 hf
    exact hstays hb (hcontexts ▸ hc) hmoved
  | unbindContext i p =>
    obtain ⟨c, ⟨⟨i, hc⟩, hmoved⟩, _⟩ := unbindContext_mem_effects.1 hf
    exact hstays ha (hcontexts ▸ hc) hmoved
  | activate e p c =>
    obtain ⟨id, s, hs, hp, _⟩ := activate_mem_effects.1 hf
    exact hswitch id _ (mem_switchEffects.2 (.inr ⟨s, hs, p, hp, rfl⟩))
  | deactivate e p c =>
    obtain ⟨id, s, hs, hp, _⟩ := deactivate_mem_effects.1 hf
    exact hswitch id _ (mem_switchEffects.2 (.inl ⟨s, hs, p, hp, rfl⟩))
  | updateFilters p fs =>
    obtain ⟨_, _, hrefresh | ⟨f, ⟨id, hf⟩, _⟩⟩ := updateFilters_mem_effects.1 hf
    · cases hrefresh
    · exact hswitch id f hf

/-- Where everything is the same, the engine has nothing to do exactly if all that is enabled is there as
the same copy. -/
theorem Same.effects_eq_nil_iff (h : before.Same after) (hb : before.Coherent) (ha : after.Coherent) :
    effects before after ∅ = [] ↔ ∀ id s t, before.elements.find? id = some s →
      after.elements.find? id = some t → s.enabledIn ≠ ∅ → t.element = s.element := by
  constructor
  · intro hnil id s t hs ht hne
    obtain ⟨p, hp⟩ : ∃ p, p ∈ s.enabledIn.elems := by
      by_contra hno
      exact hne (OrdSet.ext_mem fun p => iff_of_false (not_exists.1 hno p) (by simp))
    obtain ⟨t', ht', hts⟩ := h.exists_find? hs
    cases ht.symm.trans ht'
    have hquiet : ∀ f ∈ effects before after ∅, f.post? ≠ some (id, p) := by simp [hnil]
    exact (not_switched_iff hb.keyed ha.keyed hs ht hp (hts ▸ hp)).1 hquiet
  · intro hall
    refine effects_eq_nil hb ha h.1 fun id f hf => ?_
    rcases mem_switchEffects.1 hf with ⟨_, _, p, hp, _⟩ | ⟨_, _, p, hp, _⟩
    · obtain ⟨s, t, hs, ht, hsp, hne⟩ := h.mem_enabledOnlyIn hp
      exact hne (hall id s t hs ht fun hempty => by simp [hempty] at hsp)
    · rw [isReplaced_comm] at hp
      obtain ⟨t, s, ht, hs, htp, hne⟩ := h.symm.mem_enabledOnlyIn hp
      obtain ⟨t', ht', hts⟩ := h.exists_find? hs
      cases ht.symm.trans ht'
      exact hne (hall id s t hs ht fun hempty => by simp [hts, hempty] at htp).symm

end Switching

end Deployment

end ServletContainer
