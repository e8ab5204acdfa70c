import ServletContainer.Proofs.Deployment.Entries

/-! The records of withdrawn contexts. A record is kept only for as long as some element names the
context (`Commits.remembers`), so that none is left when no element is. -/
namespace ServletContainer.Deployment

variable {d d' m : Deployment} {c : Change} {cs : List Change} {t : ContextId} {p : ContextPath}

/-- Every withdrawn context is still named by some element. -/
def Remembers (d : Deployment) : Prop :=
  ∀ t p, d.withdrawn.find? t = some p → d.isTargeted t

theorem isTargeted_iff :
    d.isTargeted t ↔ ∃ id s, d.elements.find? id = some s ∧ t ∈ s.element.targets := by
  simp only [isTargeted, List.any_eq_true, OrdMap.mem_values_iff, List.contains_iff_mem]
  constructor
  · rintro ⟨s, ⟨id, hs⟩, ht⟩
    exact ⟨id, s, hs, ht⟩
  · rintro ⟨id, s, hs, ht⟩
    exact ⟨s, ⟨id, hs⟩, ht⟩

theorem withdrawn_prune (d : Deployment) :
    d.prune.withdrawn.find? t = some p ↔ d.prune.isTargeted t ∧ d.withdrawn.find? t = some p := by
  rw [prune, OrdMap.find?_filter, Option.filter_eq_some_iff, and_comm]
  rfl

theorem Remembers.prune_eq (h : d.Remembers) : d.prune = d := by
  have hall : (d.withdrawn.filter fun t _ => d.isTargeted t) = d.withdrawn := by
    refine OrdMap.ext_find? fun t => ?_
    rw [OrdMap.find?_filter]
    cases hp : d.withdrawn.find? t with
    | none => rfl
    | some p => simp [h t p hp]
  rw [prune, hall]

theorem removeContext_ok {j : ContextId} (h : d.apply (.removeContext j) = .ok m) :
    ∃ x, d.contexts.find? j = some x ∧ m.elements = d.elements ∧
      m.withdrawn = if d.isTargeted j then d.withdrawn.insert j x.path else d.withdrawn := by
  obtain ⟨⟨x, _⟩, hunbind, rfl⟩ := exists_of_map_ok h
  exact ⟨x, (Contexts.unbind_ok hunbind).1, rfl, rfl⟩

theorem isTargeted_congr (h : m.elements = d.elements) (t : ContextId) :
    m.isTargeted t = d.isTargeted t := by
  rw [isTargeted, h]
  rfl

/-- Changes to elements and to other contexts keep the record of a target for as long as the target is
named. -/
theorem Remembers.withdrawn_of_ne (hd : d.Remembers) (h : d.apply c = .ok m)
    (hc : c.context? ≠ some t) :
    m.withdrawn.find? t = some p ↔ m.isTargeted t ∧ d.withdrawn.find? t = some p := by
  have hkept (hw : m.withdrawn.find? t = d.withdrawn.find? t) (ht : d.isTargeted t → m.isTargeted t) :
      m.withdrawn.find? t = some p ↔ m.isTargeted t ∧ d.withdrawn.find? t = some p := by
    rw [hw]
    exact (and_iff_right_of_imp fun hp => ht (hd t p hp)).symm
  cases c with
  | addPhysical q =>
    cases h
    exact hkept rfl id
  | removePhysical q =>
    obtain ⟨_, _, rfl⟩ := exists_of_map_ok h
    exact hkept rfl id
  | addContext x =>
    obtain ⟨_, _, rfl⟩ := exists_of_map_ok h
    refine hkept ?_ id
    rw [OrdMap.find?_erase_eq, if_neg fun heq => hc (congrArg some heq)]
  | removeContext j =>
    obtain ⟨x, _, helements, hwithdrawn⟩ := removeContext_ok h
    refine hkept ?_ fun ht => (isTargeted_congr helements t).trans ht
    rw [hwithdrawn]
    split
    · rw [OrdMap.find?_insert_eq, if_neg fun heq => hc (congrArg some heq.symm)]
    · rfl
  | updateRank j rank =>
    obtain ⟨_, _, rfl⟩ := exists_of_map_ok h
    exact hkept rfl id
  | addElement e =>
    obtain ⟨hnew, rfl⟩ := addElement_ok h
    refine hkept rfl fun ht => ?_
    obtain ⟨id, s, hs, ht⟩ := isTargeted_iff.1 ht
    refine isTargeted_iff.2 ⟨id, s, ?_, ht⟩
    rw [OrdMap.find?_insert_eq, if_neg (by rintro rfl; cases hnew.symm.trans hs)]
    exact hs
  | removeElement j =>
    obtain ⟨_, rfl⟩ := removeElement_ok h
    exact withdrawn_prune _
  | retarget j ts =>
    obtain ⟨_, _, rfl⟩ := retarget_ok h
    exact withdrawn_prune _
  | refreshFilters q =>
    simp only [Deployment.apply] at h
    split at h
    · cases h
      exact hkept rfl id
    · cases h

theorem Remembers.apply (hd : d.Remembers) (h : d.apply c = .ok m) : m.Remembers := by
  intro t p hp
  by_cases hc : c.context? = some t
  · cases c with
    | addContext x =>
      obtain rfl : x.id = t := Option.some.inj hc
      obtain ⟨_, _, rfl⟩ := exists_of_map_ok h
      simp [OrdMap.find?_erase_eq] at hp
    | removeContext j =>
      obtain rfl : j = t := Option.some.inj hc
      obtain ⟨x, _, helements, hwithdrawn⟩ := removeContext_ok h
      rw [isTargeted_congr helements]
      rw [hwithdrawn] at hp
      split at hp
      · assumption
      · exact hd j p hp
    | updateRank j rank =>
      obtain ⟨_, _, rfl⟩ := exists_of_map_ok h
      exact hd t p hp
    | _ => cases hc
  · exact ((hd.withdrawn_of_ne h hc).1 hp).1

theorem Becomes.remembers (h : d.Becomes cs d') (hd : d.Remembers) : d'.Remembers :=
  h.preserves (P := Remembers) (fun _ _ _ hb ha => ha.apply hb) hd

theorem Commits.remembers (h : d.Commits cs d') (hd : d.Remembers) : d'.Remembers := by
  obtain ⟨m, hm, hblank⟩ := h.blank
  intro t p hp
  have hwithdrawn : d'.withdrawn = m.withdrawn := congrArg (·.withdrawn) hblank
  rw [← isTargeted_blank, hblank, isTargeted_blank]
  exact hm.remembers hd t p (hwithdrawn ▸ hp)

theorem Remembers.withdrawn_eq (hd : d.Remembers) (h : d.elements = ∅) : d.withdrawn = ∅ := by
  refine OrdMap.ext_find? fun t => Option.eq_none_iff_forall_ne_some.2 fun p hp => ?_
  obtain ⟨id, s, hs, _⟩ := isTargeted_iff.1 (hd t p hp)
  rw [h] at hs
  cases hs

end ServletContainer.Deployment
