import ServletContainer.Proofs.Arbitration.Outcome
import ServletContainer.Proofs.Deployment.Changes

/-! Arbitrating again what a batch touched. An element is passed over if the batch did not touch it
and the walk from the touched slots did not reach it. All others get what arbitrating everything
gives them (`enabledIn_rearbitrate`), and for those that are passed over arbitrating everything gives
the same before and after (`PassedOver.arbitrated_eq`): they share no slot with the others, neither
before nor after. -/
namespace ServletContainer

namespace Deployment

variable {d before after : Deployment} {id : ElementId} {s : Deployed} {c : Candidate}

theorem mem_candidates : c ∈ d.resolver.candidates ↔
    ∃ id s, d.elements.find? id = some s ∧ c = d.candidateOf s.element := by
  simp only [resolver, elementList, List.map_map, List.mem_map, OrdMap.mem_values_iff,
    Function.comp_apply]
  constructor
  · rintro ⟨s, ⟨id, hs⟩, rfl⟩
    exact ⟨id, s, hs, rfl⟩
  · rintro ⟨id, s, hs, rfl⟩
    exact ⟨s, ⟨id, hs⟩, rfl⟩

theorem candidateOf_mem (hs : d.elements.find? id = some s) :
    d.candidateOf s.element ∈ d.resolver.candidates :=
  mem_candidates.2 ⟨id, s, hs, rfl⟩

theorem Keyed.nodup_elementList (hd : d.Keyed) : (d.elementList.map (·.id)).Nodup := by
  have hkeys : d.elementList.map (·.id) = d.elements.keys := by
    simp only [elementList, OrdMap.values, OrdMap.keys, List.map_map]
    exact List.map_congr_left fun e he => hd e.1 e.2 (OrdMap.mem_entries_iff.1 he)
  rw [hkeys]
  exact d.elements.nodup_keys

theorem Keyed.nodup (hd : d.Keyed) : (d.resolver.candidates.map Candidate.id).Nodup := by
  simp only [resolver, List.map_map]
  exact hd.nodup_elementList

theorem Keyed.find?_of_mem (hd : d.Keyed) (hc : c ∈ d.resolver.candidates) :
    ∃ s, d.elements.find? c.id = some s ∧ c = d.candidateOf s.element := by
  obtain ⟨id, s, hs, rfl⟩ := mem_candidates.1 hc
  have hid : (d.candidateOf s.element).id = id := hd id s hs
  exact ⟨s, hid ▸ hs, rfl⟩

/-- Where an element is enabled by arbitrating everything. -/
def arbitrated (d : Deployment) (id : ElementId) : OrdSet ContextPath :=
  (d.resolver.resolveAll.enabled.find? id).getD ∅

theorem Keyed.find?_resolveAll (hd : d.Keyed) (id : ElementId) :
    d.resolver.resolveAll.enabled.find? id = (d.elements.find? id).bind fun s =>
      if d.physicalOf s.element = [] then none else some (d.arbitrated id) := by
  cases hs : d.elements.find? id with
  | none =>
    rw [Option.bind_none, ← Option.not_isSome_iff_eq_none, Resolver.resolveAll,
      Resolver.find?_resolve_isSome hd.nodup]
    rintro ⟨c, hc, _, rfl⟩
    obtain ⟨s, h, _⟩ := hd.find?_of_mem hc
    cases hs.symm.trans h
  | some s =>
    have hid : (d.candidateOf s.element).id = id := hd id s hs
    have hsome := Resolver.find?_resolveAll_isSome hd.nodup (candidateOf_mem hs)
    rw [hid] at hsome
    rw [Option.bind_some]
    split
    · rename_i hp
      rw [← Option.not_isSome_iff_eq_none, hsome]
      exact not_not.2 hp
    · rename_i hp
      obtain ⟨ps, hps⟩ := Option.isSome_iff_exists.1 (hsome.2 hp)
      rw [arbitrated, hps]
      rfl

theorem stable_arbitrated (hd : d.Keyed) :
    Stable d.policy d.resolver.candidates fun id p => p ∈ (d.arbitrated id).elems :=
  Resolver.stable_resolveAll hd.nodup

theorem arbitrated_of_unrivalled (hd : d.Keyed) (hs : d.elements.find? id = some s)
    (h : ∀ b ∈ d.resolver.candidates, b.Better (d.candidateOf s.element) →
      ¬ b.Shares (d.candidateOf s.element)) :
    d.arbitrated id = OrdSet.ofList (d.physicalOf s.element) := by
  have hid : (d.candidateOf s.element).id = id := hd id s hs
  refine OrdSet.ext_mem fun p => ?_
  have hstable := stable_arbitrated hd (d.candidateOf s.element) (candidateOf_mem hs) p
  rw [hid] at hstable
  rw [OrdSet.mem_ofList]
  refine hstable.trans ⟨fun ⟨hp, _⟩ => hp, fun hp => ⟨hp, Candidate.claim_ne_nil hp, ?_⟩⟩
  rintro ⟨b, hb, hbetter, k, hk, hkb, _⟩
  exact h b hb hbetter ⟨k, hkb, Candidate.mem_keys_of_mem_claim hk⟩

section Touching

theorem candidateOf_congr {e f : Element} (he : e = f)
    (hp : before.physicalOf e = after.physicalOf f) :
    before.candidateOf e = after.candidateOf f := by
  subst he
  simp only [candidateOf, hp]

theorem isTouched_eq_false : isTouched before after id = false ↔
    ∃ s t, before.elements.find? id = some s ∧ after.elements.find? id = some t ∧
      before.candidateOf s.element = after.candidateOf t.element := by
  unfold isTouched
  cases hb : before.elements.find? id with
  | none => simp
  | some s =>
    cases ha : after.elements.find? id with
    | none => simp
    | some t =>
      simp only [Bool.or_eq_false_iff, bne_eq_false_iff_eq, Option.some.injEq]
      constructor
      · rintro ⟨he, hp⟩
        exact ⟨s, t, rfl, rfl, candidateOf_congr he hp⟩
      · rintro ⟨_, _, rfl, rfl, hc⟩
        exact ⟨congrArg Candidate.element hc, congrArg Candidate.physical hc⟩

theorem mem_idsOf : id ∈ idsOf before after ↔
    (∃ s, before.elements.find? id = some s) ∨ ∃ s, after.elements.find? id = some s := by
  simp [idsOf, OrdMap.mem_keys_iff]

theorem mem_slotsOfId {k : SlotKey} :
    k ∈ d.slotsOfId id ↔
      ∃ s, d.elements.find? id = some s ∧ k ∈ (d.candidateOf s.element).keys := by
  cases h : d.elements.find? id with
  | none => simp [slotsOfId, h]
  | some s => simp [slotsOfId, h, slotsOf, candidateOf]

theorem mem_seeds_of_touched (ht : isTouched before after id = true) {k : SlotKey}
    (hk : k ∈ before.slotsOfId id ∨ k ∈ after.slotsOfId id) : k ∈ seeds before after := by
  have hid : id ∈ idsOf before after := by
    rcases hk with hk | hk
    · exact mem_idsOf.2 (.inl ((mem_slotsOfId.1 hk).imp fun _ h => h.1))
    · exact mem_idsOf.2 (.inr ((mem_slotsOfId.1 hk).imp fun _ h => h.1))
  simp only [seeds, touched, List.mem_flatMap, List.mem_filter, List.mem_append]
  exact ⟨id, ⟨hid, ht⟩, hk⟩

end Touching

/-- Neither touched nor reached from what was touched. -/
def PassedOver (before after : Deployment) (id : ElementId) : Prop :=
  isTouched before after id = false ∧ ∀ s, after.elements.find? id = some s →
    ¬ (after.candidateOf s.element).IsReached after.resolver.candidates (seeds before after)

section Commit

theorem enabledIn_of_find? (hs : d.elements.find? id = some s) : d.enabledIn id = s.enabledIn := by
  simp [enabledIn, hs]

theorem enabledIn_of_none (hs : d.elements.find? id = none) : d.enabledIn id = ∅ := by
  simp [enabledIn, hs]

theorem arbitrated_of_none (hd : d.Keyed) (hs : d.elements.find? id = none) :
    d.arbitrated id = ∅ := by
  rw [arbitrated, hd.find?_resolveAll, hs]
  rfl

theorem arbitrated_of_unmapped (hd : d.Keyed) (hs : d.elements.find? id = some s)
    (hp : d.physicalOf s.element = []) : d.arbitrated id = ∅ := by
  rw [arbitrated, hd.find?_resolveAll, hs, Option.bind_some, if_pos hp]
  rfl

theorem find?_rearbitrate (before after : Deployment) (id : ElementId) :
    (rearbitrate before after).1.elements.find? id = (after.elements.find? id).map fun s =>
      if (touched before after).contains id && (after.physicalOf s.element).isEmpty then
        { s with enabledIn := ∅ }
      else
        { s with
          enabledIn :=
            ((after.resolver.resolve (seeds before after)).enabled.find? id).getD s.enabledIn } :=
  OrdMap.find?_mapWithKey ..

theorem isReached_of_touched (ht : isTouched before after id = true)
    (hs : after.elements.find? id = some s) (hp : after.physicalOf s.element ≠ []) :
    (after.candidateOf s.element).IsReached after.resolver.candidates (seeds before after) := by
  obtain ⟨k, hk⟩ := List.exists_mem_of_ne_nil _ (Candidate.keys_ne_nil_iff.2 hp :
    (after.candidateOf s.element).keys ≠ [])
  exact ⟨k, hk, .seed (mem_seeds_of_touched ht (.inr (mem_slotsOfId.2 ⟨s, hs, hk⟩)))⟩

theorem PassedOver.enabledIn_eq (ha : after.Keyed) (h : PassedOver before after id) :
    (rearbitrate before after).1.enabledIn id = after.enabledIn id := by
  obtain ⟨ht, hr⟩ := h
  obtain ⟨_, s, _, hs, _⟩ := isTouched_eq_false.1 ht
  have hid : (after.candidateOf s.element).id = id := ha id s hs
  have hnone : (after.resolver.resolve (seeds before after)).enabled.find? id = none := by
    rw [← Option.not_isSome_iff_eq_none, Resolver.find?_resolve_isSome ha.nodup]
    rintro ⟨c, hc, hcr, hcid⟩
    obtain rfl := List.inj_on_of_nodup_map ha.nodup hc (candidateOf_mem hs) (hcid.trans hid.symm)
    exact hr s hs hcr
  have hnot : (touched before after).contains id = false := by
    simp [touched, ht]
  have hd := find?_rearbitrate before after id
  rw [hs, Option.map_some, hnot, Bool.false_and, if_neg Bool.false_ne_true, hnone] at hd
  rw [enabledIn_of_find? hd, enabledIn_of_find? hs]
  rfl

/-- Who is reached gets what arbitrating everything gives. -/
theorem enabledIn_of_isReached (ha : after.Keyed) (hs : after.elements.find? id = some s)
    (hr : (after.candidateOf s.element).IsReached after.resolver.candidates
      (seeds before after)) :
    (rearbitrate before after).1.enabledIn id = after.arbitrated id := by
  have hc := candidateOf_mem hs
  have hid : (after.candidateOf s.element).id = id := ha id s hs
  have hp : (after.physicalOf s.element).isEmpty = false :=
    List.isEmpty_eq_false_iff.2 hr.physical_ne_nil
  have hfind := Resolver.find?_resolve ha.nodup hc hr
  obtain ⟨ps, hps⟩ := Option.isSome_iff_exists.1
    ((Resolver.find?_resolveAll_isSome ha.nodup hc).2 hr.physical_ne_nil)
  rw [hid] at hfind hps
  have hd := find?_rearbitrate before after id
  rw [hs, Option.map_some, hp, Bool.and_false, if_neg Bool.false_ne_true, hfind, hps] at hd
  rw [enabledIn_of_find? hd, arbitrated, hps]
  rfl

theorem enabledIn_of_unmapped (ht : isTouched before after id = true)
    (hs : after.elements.find? id = some s) (hp : after.physicalOf s.element = []) :
    (rearbitrate before after).1.enabledIn id = ∅ := by
  have hmem : (touched before after).contains id = true := by
    simp only [touched, List.contains_iff_mem, List.mem_filter]
    exact ⟨mem_idsOf.2 (.inr ⟨s, hs⟩), ht⟩
  have hd := find?_rearbitrate before after id
  rw [hs, Option.map_some, hmem, hp] at hd
  rw [enabledIn_of_find? hd]
  rfl

/-- Who is not passed over gets what arbitrating everything gives. -/
theorem enabledIn_rearbitrate (ha : after.Keyed) (h : ¬ PassedOver before after id) :
    (rearbitrate before after).1.enabledIn id = after.arbitrated id := by
  cases hs : after.elements.find? id with
  | none =>
    have hd := find?_rearbitrate before after id
    rw [hs] at hd
    rw [enabledIn_of_none hd, arbitrated_of_none ha hs]
  | some s =>
    by_cases hr : (after.candidateOf s.element).IsReached after.resolver.candidates
        (seeds before after)
    · exact enabledIn_of_isReached ha hs hr
    · have ht : isTouched before after id = true := by
        by_contra ht
        exact h ⟨Bool.not_eq_true _ ▸ ht, fun t hst => by cases hs.symm.trans hst; exact hr⟩
      have hp : after.physicalOf s.element = [] := by
        by_contra hp
        exact hr (isReached_of_touched ht hs hp)
      rw [enabledIn_of_unmapped ht hs hp, arbitrated_of_unmapped ha hs hp]

end Commit

section Strangers

open Classical in
noncomputable def strangers (before after : Deployment) : List Candidate :=
  after.resolver.candidates.filter fun c => PassedOver before after c.id

theorem mem_strangers (ha : after.Keyed) : c ∈ strangers before after ↔
    c ∈ after.resolver.candidates ∧ isTouched before after c.id = false ∧
      ¬ c.IsReached after.resolver.candidates (seeds before after) := by
  simp only [strangers, List.mem_filter, decide_eq_true_eq]
  refine and_congr_right fun hc => and_congr_right fun _ => ?_
  obtain ⟨s, hs, hcs⟩ := ha.find?_of_mem hc
  simp [hs, ← hcs]

theorem isReached_of_shared {k : SlotKey} (ht : isTouched before after id = true)
    (hk : k ∈ before.slotsOfId id ∨ k ∈ after.slotsOfId id) (hkc : k ∈ c.keys) :
    c.IsReached after.resolver.candidates (seeds before after) :=
  ⟨k, hkc, .seed (mem_seeds_of_touched ht hk)⟩

theorem strangers_closed_after (ha : after.Keyed) (hc : c ∈ strangers before after)
    {b : Candidate} (hb : b ∈ after.resolver.candidates) (hs : b.Shares c) :
    b ∈ strangers before after := by
  obtain ⟨_, _, hcr⟩ := (mem_strangers ha).1 hc
  obtain ⟨k, hkb, hkc⟩ := hs
  obtain ⟨s, hs, hbs⟩ := ha.find?_of_mem hb
  refine (mem_strangers ha).2 ⟨hb, Bool.not_eq_true _ ▸ fun ht => hcr ?_, fun hbr => hcr ?_⟩
  · exact isReached_of_shared ht (.inr (mem_slotsOfId.2 ⟨s, hs, hbs ▸ hkb⟩)) hkc
  · obtain ⟨l, hl, hr⟩ := hbr
    exact ⟨k, hkc, hr.follow hb hl hkb⟩

theorem strangers_closed_before (hb : before.Keyed) (ha : after.Keyed)
    (hc : c ∈ strangers before after) {b : Candidate} (hbm : b ∈ before.resolver.candidates)
    (hs : b.Shares c) : b ∈ strangers before after := by
  obtain ⟨_, _, hcr⟩ := (mem_strangers ha).1 hc
  obtain ⟨s, hbs, hbe⟩ := hb.find?_of_mem hbm
  have ht : isTouched before after b.id = false := Bool.not_eq_true _ ▸ fun ht => by
    obtain ⟨k, hkb, hkc⟩ := hs
    exact hcr (isReached_of_shared ht (.inl (mem_slotsOfId.2 ⟨s, hbs, hbe ▸ hkb⟩)) hkc)
  obtain ⟨s', t, hs', hat, hst⟩ := isTouched_eq_false.1 ht
  cases hbs.symm.trans hs'
  have hba : b ∈ after.resolver.candidates := by
    rw [hbe, hst]
    exact candidateOf_mem hat
  exact strangers_closed_after ha hc hba hs

theorem strangers_sub_before (ha : after.Keyed) (hc : c ∈ strangers before after) :
    c ∈ before.resolver.candidates := by
  obtain ⟨hca, ht, _⟩ := (mem_strangers ha).1 hc
  obtain ⟨s, t, hs, hat, hst⟩ := isTouched_eq_false.1 ht
  obtain ⟨t', ht', hct⟩ := ha.find?_of_mem hca
  cases hat.symm.trans ht'
  rw [hct, ← hst]
  exact candidateOf_mem hs

/-- Arbitrating everything makes no difference to who is passed over. -/
theorem PassedOver.arbitrated_eq (h : PassedOver before after id) (hb : before.Keyed)
    (ha : after.Keyed) (hp : after.policy = before.policy) :
    after.arbitrated id = before.arbitrated id := by
  have hafter : Stable after.policy (strangers before after)
      fun id p => p ∈ (after.arbitrated id).elems :=
    (stable_arbitrated ha).restrict (fun c hc => ((mem_strangers ha).1 hc).1)
      fun c hc b => strangers_closed_after ha hc
  have hbefore : Stable before.policy (strangers before after)
      fun id p => p ∈ (before.arbitrated id).elems :=
    (stable_arbitrated hb).restrict (fun c hc => strangers_sub_before ha hc)
      fun c hc b => strangers_closed_before hb ha hc
  rw [hp] at hafter
  obtain ⟨_, t, _, ht, _⟩ := isTouched_eq_false.1 h.1
  have hid : (after.candidateOf t.element).id = id := ha id t ht
  have hmem : after.candidateOf t.element ∈ strangers before after :=
    (mem_strangers ha).2 ⟨candidateOf_mem ht, hid.symm ▸ h.1, h.2 t ht⟩
  exact OrdSet.ext_mem (hid ▸ hafter.unique hbefore _ hmem)

end Strangers

end Deployment

end ServletContainer
