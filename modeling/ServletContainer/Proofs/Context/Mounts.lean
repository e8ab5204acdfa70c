import ServletContainer.Proofs.Context.Model

/-! Mount points. One that is not pinned goes with the last context that is bound to it, so that every
mount point is pinned or has a context (`Contexts.Tended`). -/
namespace ServletContainer

namespace Contexts

variable {cs cs' : Contexts} {c : LogicalContext} {id : ContextId} {p q : ContextPath} {x : Physical}

def Tended (cs : Contexts) : Prop :=
  ∀ p x, cs.physical.find? p = some x → x.pinned ∨ x.bound ≠ []

theorem find?_ensure (cs : Contexts) (p q : ContextPath) : (cs.ensure p).physical.find? q =
    if q = p then some ((cs.physical.find? q).getD {}) else cs.physical.find? q := by
  unfold ensure
  split
  · rename_i hp
    split
    · rename_i hq
      obtain ⟨x, hx⟩ := Option.isSome_iff_exists.1 (hq ▸ hp)
      rw [hx]
      rfl
    · rfl
  · rename_i hp
    have hnone : cs.physical.find? p = none := by simpa [OrdMap.contains] using hp
    rw [OrdMap.find?_insert_eq]
    split
    · rename_i hq
      rw [hq, hnone]
      rfl
    · rfl

theorem Tended.pin (h : cs.Tended) (p : ContextPath) : (cs.pin p).Tended := by
  intro q x hx
  simp only [Contexts.pin, OrdMap.find?_modify, find?_ensure] at hx
  split at hx
  · obtain ⟨y, _, rfl⟩ := Option.map_eq_some_iff.1 hx
    exact .inl rfl
  · rename_i hq
    rw [if_neg (Ne.symm hq)] at hx
    exact h q x hx

theorem physical_removePhysical (h : cs.removePhysical p = .ok cs') :
    cs'.physical = cs.physical.erase p := by
  unfold Contexts.removePhysical at h
  split at h
  · cases h
  · split at h <;> cases h
    rfl

theorem Tended.removePhysical (h : cs.Tended) (hr : cs.removePhysical p = .ok cs') : cs'.Tended := by
  intro q x hx
  rw [physical_removePhysical hr, OrdMap.find?_erase_eq] at hx
  split at hx
  · cases hx
  · exact h q x hx

theorem Tended.sortBound (h : cs.Tended) (p : ContextPath) : (cs.sortBound p).Tended := by
  intro q x hx
  simp only [Contexts.sortBound, OrdMap.find?_modify] at hx
  split at hx
  · obtain ⟨y, hy, rfl⟩ := Option.map_eq_some_iff.1 hx
    refine (h q y hy).imp_right fun hne hnil => ?_
    obtain ⟨id, hid⟩ := List.exists_mem_of_ne_nil _ hne
    have : id ∈ byPriority cs.logical y.bound := mem_byPriority.2 hid
    simp_all
  · exact h q x hx

theorem Tended.bind (h : cs.Tended) (hb : cs.bind c = .ok cs') : cs'.Tended := by
  unfold Contexts.bind at hb
  split at hb
  · cases hb
  · cases hb
    refine Tended.sortBound (fun q x hx => ?_) c.path
    simp only [OrdMap.find?_modify, find?_ensure] at hx
    split at hx
    · obtain ⟨y, _, rfl⟩ := Option.map_eq_some_iff.1 hx
      exact .inr (by simp)
    · rename_i hq
      rw [if_neg (Ne.symm hq)] at hx
      exact h q x hx

theorem Tended.updateRank {rank : Int} (h : cs.Tended) (hu : cs.updateRank id rank = .ok cs') :
    cs'.Tended := by
  unfold Contexts.updateRank at hu
  split at hu
  · cases hu
  · cases hu
    refine Tended.sortBound ?_ _
    exact h

theorem physical_unbind (hu : cs.unbind id = .ok (c, cs')) :
    let modified := cs.physical.modify c.path fun m => { m with bound := m.bound.filter (· ≠ id) }
    cs'.physical = modified.erase c.path ∨
      cs'.physical = modified ∧ ∀ x, modified.find? c.path = some x → x.pinned ∨ x.bound ≠ [] := by
  unfold Contexts.unbind at hu
  split at hu
  · cases hu
  · cases hu
    simp only
    split
    · rename_i z hz
      split
      · exact .inl rfl
      · rename_i hkept
        refine .inr ⟨rfl, fun x hx => ?_⟩
        cases hz.symm.trans hx
        simpa [or_iff_not_imp_right] using hkept
    · rename_i hz
      exact .inr ⟨rfl, fun x hx => by cases hz.symm.trans hx⟩

/-- What is mounted after a context was unbound was mounted before, pinned or not as now, and something
keeps it if the context was bound there. -/
theorem find?_unbind (hu : cs.unbind id = .ok (c, cs')) (hx : cs'.physical.find? p = some x) :
    ∃ y, cs.physical.find? p = some y ∧ x.pinned = y.pinned ∧
      (x = y ∨ x.pinned ∨ x.bound ≠ []) := by
  have hmodify : (cs.physical.modify c.path fun m =>
      { m with bound := m.bound.filter (· ≠ id) }).find? p = some x ∧
        (c.path = p → x.pinned ∨ x.bound ≠ []) := by
    rcases physical_unbind hu with h | ⟨h, hkept⟩ <;> rw [h] at hx
    · rw [OrdMap.find?_erase_eq] at hx
      split at hx
      · cases hx
      · rename_i hp
        exact ⟨hx, fun h => absurd h hp⟩
    · exact ⟨hx, fun hp => hkept x (hp ▸ hx)⟩
  obtain ⟨hfind, hkept⟩ := hmodify
  rw [OrdMap.find?_modify] at hfind
  split at hfind
  · rename_i hp
    obtain ⟨y, hy, rfl⟩ := Option.map_eq_some_iff.1 hfind
    exact ⟨y, hy, rfl, .inr (hkept hp)⟩
  · exact ⟨x, hfind, rfl, .inl rfl⟩

theorem Tended.unbind (h : cs.Tended) (hu : cs.unbind id = .ok (c, cs')) : cs'.Tended := by
  intro p x hx
  obtain ⟨y, hy, _, rfl | hkept⟩ := find?_unbind hu hx
  · exact h p x hy
  · exact hkept

end Contexts

end ServletContainer
