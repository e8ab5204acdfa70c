import ServletContainer.Proofs.Deployment.Entries
import ServletContainer.Proofs.Server.Removal

/-! Stopping a server. The batch that withdraws everything is always valid (`exists_shutdown`), and the
in-process engine, which has nothing to activate then, takes it (`Mirrored.stop_ok`). -/
namespace ServletContainer

namespace Contexts

variable {cs cs' : Contexts} {c : LogicalContext} {id : ContextId} {p : ContextPath} {x : Physical}

theorem find?_unbind_of_pinned (hu : cs.unbind id = .ok (c, cs'))
    (hx : cs.physical.find? p = some x) (hp : x.pinned) :
    ∃ y, cs'.physical.find? p = some y ∧ y.pinned := by
  unfold Contexts.unbind at hu
  split at hu
  · cases hu
  · cases hu
    have hmodify : ∃ y, (cs.physical.modify c.path fun m =>
        { m with bound := m.bound.filter (· ≠ id) }).find? p = some y ∧ y.pinned := by
      rw [OrdMap.find?_modify, hx]
      split <;> exact ⟨_, rfl, hp⟩
    simp only
    split
    · rename_i z hz
      split
      · rename_i hgone
        obtain ⟨y, hy, hyp⟩ := hmodify
        have hne : c.path ≠ p := by
          rintro rfl
          cases hz.symm.trans hy
          simp [hyp] at hgone
        exact ⟨y, by rw [OrdMap.find?_erase_eq, if_neg hne]; exact hy, hyp⟩
      · exact hmodify
    · exact hmodify

theorem removePhysical_of_unbound (hx : cs.physical.find? p = some x) (hb : x.bound = []) :
    ∃ cs', cs.removePhysical p = .ok cs' := by
  unfold Contexts.removePhysical
  rw [hx]
  simp only [hb]
  exact ⟨_, rfl⟩

end Contexts

namespace Deployment

variable {d m : Deployment} {p : ContextPath}

theorem exists_removeElements (d : Deployment) :
    ∃ m, d.Becomes (d.elements.keys.map .removeElement) m := by
  refine exists_becomes_map (k := id) d.elements.nodup_keys fun as id a hid has ha => ?_
  obtain ⟨s, hs⟩ := OrdMap.mem_keys_iff.1 hid
  refine exists_removeElement ?_
  rw [ha.traces.placed, Change.foldl_onElement_removeElement, if_neg fun h => has id h rfl, placed, hs]
  simp

theorem exists_removeContexts (d : Deployment) :
    ∃ m, d.Becomes (d.contexts.logical.keys.map .removeContext) m := by
  refine exists_becomes_map (k := id) d.contexts.logical.nodup_keys fun as id a hid has ha => ?_
  obtain ⟨c, hc⟩ := OrdMap.mem_keys_iff.1 hid
  refine exists_removeContext (x := c) ?_
  rw [ha.traces.context, Change.foldl_onContext_removeContext, if_neg fun h => has id h rfl]
  exact hc

theorem exists_removePhysicals {ps : List ContextPath} (hnodup : ps.Nodup)
    (h : ∀ p ∈ ps, ∃ x, d.contexts.physical.find? p = some x ∧ x.bound = []) :
    ∃ m, d.Becomes (ps.map .removePhysical) m := by
  refine exists_becomes_map (k := id) hnodup fun as p a hp has ha => ?_
  obtain ⟨x, hx, hb⟩ := h p hp
  have hstays : a.contexts.physical.find? p = some x := by
    rw [ha.removePhysicals, if_neg fun h => has p h rfl, hx]
  obtain ⟨cs, hcs⟩ := Contexts.removePhysical_of_unbound hstays hb
  exact ⟨{ a with contexts := cs }, by rw [apply, hcs]; rfl⟩

theorem Becomes.pinned_removeContexts {ids : List ContextId} {x : Physical}
    (h : d.Becomes (ids.map .removeContext) m) (hx : d.contexts.physical.find? p = some x)
    (hp : x.pinned) : ∃ y, m.contexts.physical.find? p = some y ∧ y.pinned := by
  refine h.preserves_of_mem (P := fun a => ∃ y, a.contexts.physical.find? p = some y ∧ y.pinned)
    (fun c hc a b hb ⟨y, hy, hyp⟩ => ?_) ⟨x, hx, hp⟩
  obtain ⟨id, _, rfl⟩ := List.mem_map.1 hc
  obtain ⟨⟨c, cs⟩, hunbind, hcs⟩ := exists_of_map_ok (leads_of_apply hb).contexts
  obtain rfl : cs = b.contexts := hcs
  exact Contexts.find?_unbind_of_pinned hunbind hy hyp

/-- Everything can be withdrawn: elements first, then contexts, and then the mount points that contexts
do not take with them. -/
theorem exists_shutdown (hd : d.contexts.WellFormed) :
    ∃ m, d.Becomes (Server.shutdown d).changes m := by
  obtain ⟨m₁, helements⟩ := d.exists_removeElements
  have hcontexts₁ := helements.contexts_removeElements
  obtain ⟨m₂, hcontexts⟩ := m₁.exists_removeContexts
  rw [hcontexts₁] at hcontexts
  have hwell : m₂.contexts.WellFormed := hcontexts.wellFormed (hcontexts₁ ▸ hd)
  have hgone (id : ContextId) : m₂.contexts.find? id = none := by
    rw [hcontexts.traces.context, Change.foldl_onContext_removeContext, hcontexts₁, ite_eq_left_iff]
    intro hid
    exact Option.not_isSome_iff_eq_none.1 fun hsome =>
      hid (OrdMap.mem_keys_iff.2 (Option.isSome_iff_exists.1 hsome))
  have hunbound : ∀ p ∈ (d.contexts.physical.filter fun _ p => p.pinned).keys,
      ∃ x, m₂.contexts.physical.find? p = some x ∧ x.bound = [] := by
    intro p hp
    obtain ⟨x, hx, hpinned⟩ := OrdMap.mem_keys_filter.1 hp
    obtain ⟨y, hy, _⟩ := hcontexts.pinned_removeContexts (hcontexts₁.symm ▸ hx) hpinned
    refine ⟨y, hy, List.eq_nil_iff_forall_not_mem.2 fun id hid => ?_⟩
    obtain ⟨c, hc, _⟩ := hwell.known p id (by simpa [Contexts.boundIds, hy] using hid)
    cases (hgone id).symm.trans hc
  obtain ⟨m, hphysicals⟩ := exists_removePhysicals (OrdMap.nodup_keys _) hunbound
  exact ⟨m, becomes_append.2 ⟨m₂, becomes_append.2 ⟨m₁, helements, hcontexts⟩, hphysicals⟩⟩

theorem Commits.placed_shutdown (h : d.Commits (Server.shutdown d).changes m) (id : ElementId) :
    m.placed id = none := by
  have helements : (d.elements.keys.map .removeElement).foldl (Change.onElement id) (d.placed id) =
      none := by
    rw [Change.foldl_onElement_removeElement, ite_eq_left_iff]
    intro hid
    refine placed_eq_none.2 (Option.not_isSome_iff_eq_none.1 fun hsome => hid ?_)
    exact OrdMap.mem_keys_iff.2 (Option.isSome_iff_exists.1 hsome)
  rw [h.traces.placed, Server.shutdown, List.foldl_append, List.foldl_append, helements,
    Change.foldl_onElement_of_ne, Change.foldl_onElement_of_ne]
  all_goals
    intro c hc
    obtain ⟨_, _, rfl⟩ := List.mem_map.1 hc
    simp [Change.element?]

end Deployment

namespace Server

variable {s : Server} {i : InProcess}

/-- A running engine takes every valid batch after which nothing is deployed: there is nothing that it
could refuse to activate. -/
theorem Mirrored.toBool_submit_of_placed {b : Batch} {m : Deployment} (h : s.Mirrored)
    (hi : s.engine = .inProcess i) (hrun : i.running) (hm : s.deployment.Becomes b.changes m)
    (hnone : ∀ id, (s.deployment.rearbitrate m).1.placed id = none) : (s.submit b).1.toBool := by
  have hcoherent : (s.deployment.rearbitrate m).1.Coherent :=
    Deployment.Commits.coherent ⟨m, hm, rfl⟩ h.coherent
  obtain ⟨j, hj, hmounts⟩ := h.mirror
  cases hi.symm.trans hj
  rw [toBool_submit hm, toBool_applyEffects hi hrun (Deployment.pairwise_effects ..)
    (hcoherent.finds_effects hmounts _) (hcoherent.keyed.agree_effects _)]
  intro f hf
  cases f with
  | activate e p c =>
    obtain ⟨id, x, hx, _⟩ := Deployment.activate_mem_effects.1 hf
    cases (Deployment.placed_eq_none.1 (hnone id)).symm.trans hx
  | _ => trivial

/-- A started server can always be stopped. -/
theorem Mirrored.stop_ok (h : s.Mirrored) (hi : s.engine = .inProcess i) (hstarted : s.started)
    (hrun : i.running) : s.stop.1 = .ok () := by
  obtain ⟨m, hm⟩ := Deployment.exists_shutdown h.coherent.wellFormed
  have hd : s.deployment.Commits (shutdown s.deployment).changes (s.deployment.rearbitrate m).1 :=
    ⟨m, hm, rfl⟩
  have hok := h.toBool_submit_of_placed hi hrun hm hd.placed_shutdown
  have hmirrored := h.submit (shutdown s.deployment)
  obtain ⟨e, t, heq, _⟩ | ⟨_, t, heq, ⟨e, hengine, _⟩ | ⟨_, _, hstop⟩⟩ :=
    stop_of_started hstarted
  · rw [heq] at hok
    cases hok
  · rw [heq] at hmirrored
    obtain ⟨k, hk, _⟩ := hmirrored.mirror
    rw [hk] at hengine
    cases hengine
  · rw [hstop]

theorem placed_stop (hstarted : s.started) (h : s.stop.1 = .ok ()) (id : ElementId) :
    s.stop.2.deployment.placed id = none := by
  rw [deployment_stop_of_started hstarted]
  obtain ⟨_, _, _, hstop⟩ | ⟨_, _, heq, _⟩ := stop_of_started hstarted
  · rw [hstop] at h
    cases h
  · rw [heq]
    exact (submit_ok heq).placed_shutdown id

end Server

end ServletContainer
