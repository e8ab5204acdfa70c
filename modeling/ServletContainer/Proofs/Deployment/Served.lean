import ServletContainer.Proofs.Context.Model
import ServletContainer.Proofs.Deployment.Commit

/-! The contexts under which elements are served. Changes keep the contexts well formed, a sound
deployment enables elements only in mounts that they are mapped to, and in such a mount an element
always has a context that is bound there (`contextFor_of_mem`). -/
namespace ServletContainer

namespace Deployment

variable {d d' : Deployment} {c : Change} {cs : List Change} {id : ElementId} {e : Element}
  {s : Deployed} {p : ContextPath}

theorem wellFormed_contextsAfter {cs : Contexts} (hd : d.contexts.WellFormed)
    (h : d.contextsAfter c = .ok cs) : cs.WellFormed := by
  cases c with
  | addPhysical p =>
    cases h
    exact hd.of_eq (Contexts.logical_pin _ p) (Contexts.boundIds_pin _ p)
  | removePhysical p =>
    obtain ⟨hl, hb⟩ := Contexts.removePhysical_ok h
    exact hd.of_eq hl hb
  | addContext c => exact hd.bind h
  | removeContext j =>
    obtain ⟨_, hcs, rfl⟩ := exists_of_map_ok h
    exact hd.unbind hcs
  | updateRank j rank => exact hd.updateRank h
  | _ =>
    cases h
    exact hd

theorem Becomes.wellFormed (h : d.Becomes cs d') (hd : d.contexts.WellFormed) :
    d'.contexts.WellFormed :=
  h.preserves (P := fun d => d.contexts.WellFormed)
    (fun _ _ _ hb ha => wellFormed_contextsAfter ha (leads_of_apply hb).contexts) hd

theorem Commits.contexts (h : d.Commits cs d') :
    ∃ m, d.Becomes cs m ∧ d'.contexts = m.contexts := by
  obtain ⟨m, hm, hb⟩ := h.blank
  refine ⟨m, hm, ?_⟩
  rw [show d'.contexts = d'.blank.contexts from rfl, hb]
  rfl

theorem Commits.wellFormed (h : d.Commits cs d') (hd : d.contexts.WellFormed) :
    d'.contexts.WellFormed := by
  obtain ⟨m, hm, hcontexts⟩ := h.contexts
  exact hcontexts ▸ hm.wellFormed hd

theorem mem_physicalOf_of_arbitrated (hd : d.Keyed) (hs : d.elements.find? id = some s)
    (hp : p ∈ (d.arbitrated id).elems) : p ∈ d.physicalOf s.element := by
  have hid : (d.candidateOf s.element).id = id := hd id s hs
  exact ((stable_arbitrated hd _ (candidateOf_mem hs) p).1 (hid.symm ▸ hp)).1

/-- A sound deployment enables an element only where it is mapped to. -/
theorem Sound.mem_physicalOf (h : d.Sound) (hd : d.Keyed) (hs : d.elements.find? id = some s)
    (hp : p ∈ s.enabledIn.elems) : p ∈ d.physicalOf s.element := by
  rw [← enabledIn_of_find? hs] at hp
  rcases h id with hempty | harb
  · rw [hempty] at hp
    cases hp
  · exact mem_physicalOf_of_arbitrated hd hs (harb ▸ hp)

section Foremost

variable {cs : List LogicalContext} {c : LogicalContext}

theorem mem_of_foremost (h : foremost cs = some c) : c ∈ cs := by
  induction cs generalizing c with
  | nil => cases h
  | cons b bs ih =>
    unfold foremost at h
    split at h
    · rename_i best hbest
      split at h
      · cases h
        exact List.mem_cons_self
      · cases h
        exact List.mem_cons_of_mem b (ih hbest)
    · cases h
      exact List.mem_cons_self

theorem foremost_eq_none (h : foremost cs = none) : cs = [] := by
  cases cs with
  | nil => rfl
  | cons b bs =>
    unfold foremost at h
    split at h
    · split at h <;> cases h
    · cases h

end Foremost

theorem highest_mem (hd : d.contexts.WellFormed) {c : LogicalContext}
    (h : d.contexts.highest p = some c) : c ∈ d.contexts.boundAt p := by
  rw [hd.highest_eq] at h
  exact List.mem_of_head? h

theorem contextFor_of_default (hd : d.contexts.WellFormed) (ht : e.targets.isEmpty)
    (hp : p ∈ d.physicalOf e) : ∃ c, d.contextFor e p = some c ∧ c ∈ d.contexts.boundAt p := by
  rw [physicalOf, if_pos ht] at hp
  rw [contextFor, if_pos ht]
  cases hc : d.contexts.find? d.defaultContext with
  | none => simp [hc] at hp
  | some c =>
    obtain rfl : p = c.path := by simpa [hc] using hp
    exact ⟨c, by simp, hd.mem_boundAt_of_find? hc⟩

theorem targetPath_eq_some {t : ContextId} (h : d.targetPath t = some p) :
    (∃ c, d.contexts.find? t = some c ∧ c.path = p) ∨
      d.withdrawn.find? t = some p ∧ ∃ c, d.contexts.highest p = some c := by
  unfold targetPath at h
  split at h
  · rename_i c hc
    exact .inl ⟨c, hc, Option.some.inj h⟩
  · obtain ⟨hw, hh⟩ := Option.filter_eq_some_iff.1 h
    exact .inr ⟨hw, Option.isSome_iff_exists.1 hh⟩

theorem contextFor_of_targets (hd : d.contexts.WellFormed) (ht : ¬ e.targets.isEmpty)
    (hp : p ∈ d.physicalOf e) : ∃ c, d.contextFor e p = some c ∧ c ∈ d.contexts.boundAt p := by
  rw [physicalOf, if_neg ht] at hp
  rw [contextFor, if_neg ht]
  obtain ⟨t, ht, htp⟩ := List.mem_filterMap.1 (OrdSet.mem_ofList.1 hp)
  split
  · rename_i c hc
    obtain ⟨hc, hcp⟩ := List.mem_filter.1 (mem_of_foremost hc)
    obtain ⟨t, _, htc⟩ := List.mem_filterMap.1 hc
    obtain rfl : c.path = p := by simpa using hcp
    exact ⟨c, rfl, hd.mem_boundAt_of_find? htc⟩
  · rename_i hnone
    rcases targetPath_eq_some htp with ⟨c, hc, rfl⟩ | ⟨hw, c, hc⟩
    · -- a target that is bound here would have been found
      have hmem : c ∈ (e.targets.filterMap d.contexts.find?).filter (·.path = c.path) :=
        List.mem_filter.2 ⟨List.mem_filterMap.2 ⟨t, ht, hc⟩, by simp⟩
      rw [foremost_eq_none hnone] at hmem
      cases hmem
    · have hany : (e.targets.any fun t => d.withdrawn.find? t = some p) = true :=
        List.any_eq_true.2 ⟨t, ht, by simpa using hw⟩
      rw [if_pos hany]
      exact ⟨c, hc, highest_mem hd hc⟩

/-- In each of its mounts an element is served under a context that is bound there. -/
theorem contextFor_of_mem (hd : d.contexts.WellFormed) (hp : p ∈ d.physicalOf e) :
    ∃ c, d.contextFor e p = some c ∧ c ∈ d.contexts.boundAt p := by
  by_cases ht : e.targets.isEmpty
  · exact contextFor_of_default hd ht hp
  · exact contextFor_of_targets hd ht hp

end Deployment

end ServletContainer
