import ServletContainer.Proofs.Context.Mounts
import ServletContainer.Proofs.Deployment.Served
import ServletContainer.Server.Basic

/-! Withdrawing everything. A mount point lives only as long as it is pinned or a context is bound to
it, so that none is left when all contexts and all pinned mount points are gone
(`Deployment.Commits.physical_shutdown`). -/
namespace ServletContainer

namespace Deployment

variable {d d' : Deployment} {c : Change} {cs : List Change} {p : ContextPath}

theorem tended_contextsAfter {contexts : Contexts} (hd : d.contexts.Tended)
    (h : d.contextsAfter c = .ok contexts) : contexts.Tended := by
  cases c with
  | addPhysical p =>
    cases h
    exact hd.pin p
  | removePhysical p => exact hd.removePhysical h
  | addContext c => exact hd.bind h
  | removeContext j =>
    obtain ⟨_, hcs, rfl⟩ := exists_of_map_ok h
    exact hd.unbind hcs
  | updateRank j rank => exact hd.updateRank h
  | _ =>
    cases h
    exact hd

theorem Becomes.tended (h : d.Becomes cs d') (hd : d.contexts.Tended) : d'.contexts.Tended :=
  h.preserves (P := fun d => d.contexts.Tended)
    (fun _ _ _ hb ha => tended_contextsAfter ha (leads_of_apply hb).contexts) hd

theorem Commits.tended (h : d.Commits cs d') (hd : d.contexts.Tended) : d'.contexts.Tended := by
  obtain ⟨m, hm, hcontexts⟩ := h.contexts
  exact hcontexts ▸ hm.tended hd

theorem Becomes.contexts_removeElements {ids : List ElementId}
    (h : d.Becomes (ids.map .removeElement) d') : d'.contexts = d.contexts := by
  refine h.preserves_of_mem (P := fun a => a.contexts = d.contexts) (fun c hc a b hb ha => ?_) rfl
  obtain ⟨id, _, rfl⟩ := List.mem_map.1 hc
  exact (Except.ok.inj (leads_of_apply hb).contexts).symm.trans ha

/-- Contexts that were removed are gone, and every mount point that is left is pinned or not as it
was. -/
theorem Becomes.removeContexts {ids : List ContextId} (h : d.Becomes (ids.map .removeContext) d') :
    (∀ id, d'.contexts.logical.find? id =
      if id ∈ ids then none else d.contexts.logical.find? id) ∧
    ∀ p x, d'.contexts.physical.find? p = some x →
      ∃ y, d.contexts.physical.find? p = some y ∧ x.pinned = y.pinned := by
  induction ids generalizing d with
  | nil =>
    rw [← becomes_nil.1 h]
    exact ⟨fun id => by simp, fun p x hx => ⟨x, hx, rfl⟩⟩
  | cons id ids ih =>
    obtain ⟨m, hm, h⟩ := becomes_cons.1 h
    obtain ⟨⟨c, cs⟩, hunbind, hcs⟩ := exists_of_map_ok (leads_of_apply hm).contexts
    obtain rfl : cs = m.contexts := hcs
    obtain ⟨hlogical, hphysical⟩ := ih h
    constructor
    · intro j
      rw [hlogical, (Contexts.unbind_ok hunbind).2.1, OrdMap.find?_erase_eq]
      grind
    · intro p x hx
      obtain ⟨y, hy, hxy⟩ := hphysical p x hx
      obtain ⟨z, hz, hyz, _⟩ := Contexts.find?_unbind hunbind hy
      exact ⟨z, hz, hxy.trans hyz⟩

theorem Becomes.removePhysicals {ps : List ContextPath} (h : d.Becomes (ps.map .removePhysical) d') :
    ∀ p, d'.contexts.physical.find? p = if p ∈ ps then none else d.contexts.physical.find? p := by
  induction ps generalizing d with
  | nil =>
    rw [← becomes_nil.1 h]
    exact fun p => by simp
  | cons q ps ih =>
    obtain ⟨m, hm, h⟩ := becomes_cons.1 h
    have hq := Contexts.physical_removePhysical (leads_of_apply hm).contexts
    intro p
    rw [ih h, hq, OrdMap.find?_erase_eq]
    grind

theorem Commits.physical_shutdown (hw : d.contexts.WellFormed) (ht : d.contexts.Tended)
    (h : d.Commits (Server.shutdown d).changes d') : d'.contexts.physical = ∅ := by
  obtain ⟨m, hm, hm'⟩ := h.contexts
  obtain ⟨m₂, h₂, hphysical⟩ := becomes_append.1 hm
  obtain ⟨m₁, helements, hcontexts⟩ := becomes_append.1 h₂
  obtain ⟨hlogical, hpinned⟩ := hcontexts.removeContexts
  rw [helements.contexts_removeElements] at hlogical hpinned
  have hgone (id : ContextId) : m₂.contexts.logical.find? id = none := by
    rw [hlogical, ite_eq_left_iff]
    intro hid
    exact Option.not_isSome_iff_eq_none.1 fun hsome =>
      hid (OrdMap.mem_keys_iff.2 (Option.isSome_iff_exists.1 hsome))
  rw [hm']
  refine OrdMap.ext_find? fun p => ?_
  rw [hphysical.removePhysicals, OrdMap.find?_emptyCollection, ite_eq_left_iff]
  intro hp
  refine Option.eq_none_iff_forall_ne_some.2 fun x hx => ?_
  -- contexts go before mount points: by now a mount point is kept by a pin, and the pinned ones are listed
  rcases h₂.tended ht p x hx with hx' | hne
  · obtain ⟨y, hy, hxy⟩ := hpinned p x hx
    exact hp (OrdMap.mem_keys_filter.2 ⟨y, hy, hxy ▸ hx'⟩)
  · obtain ⟨id, hid⟩ := List.exists_mem_of_ne_nil _ hne
    obtain ⟨c, hc, _⟩ := (h₂.wellFormed hw).known p id (by simpa [Contexts.boundIds, hx] using hid)
    cases (hgone id).symm.trans hc

end Deployment

end ServletContainer
