import ServletContainer.Arbitration.Slot
import ServletContainer.Proofs.Ordered

/-! The order of listings. A slot is given by its mount, its namespace and its place, so that the order
tells any two slots apart, and a listing is the same whichever way its slots came
(`SlotKey.sortBy_eq_of_perm`). -/
namespace ServletContainer

theorem Namespace.index_injective : Function.Injective Namespace.index := by
  intro a b h
  cases a <;> cases b <;> first | rfl | cases h

theorem Slot.place_injective : Function.Injective Slot.place := by
  intro s t h
  rcases s with n | (p | p | e | _) | (n | _ | _ | k) <;>
    rcases t with n' | (p' | p' | e' | _) | (n' | _ | _ | k') <;> simp_all [Slot.place]

namespace SlotKey

instance : Ord SlotKey := ⟨SlotKey.compare⟩

theorem compare_eq_compareLex : (Ord.compare : SlotKey → SlotKey → Ordering) =
    compareLex (compareOn (·.physical)) (compareLex (compareOn (·.space.index))
      (compareLex (compareOn (·.slot.place.1)) (compareLex (compareOn (·.slot.place.2.1))
        (compareLex (compareOn (·.slot.place.2.2.1)) (compareOn (·.slot.place.2.2.2)))))) := rfl

instance : Std.TransOrd SlotKey := by
  unfold Std.TransOrd
  rw [compare_eq_compareLex]
  infer_instance

instance : Std.LawfulEqOrd SlotKey where
  compare_self := Std.ReflCmp.compare_self
  eq_of_compare := by
    intro ⟨p, n, s⟩ ⟨q, m, t⟩ h
    simp only [compare_eq_compareLex, compareLex, compareOn, Ordering.then_eq_eq,
      Std.LawfulEqCmp.compare_eq_iff_eq] at h
    obtain ⟨hp, hn, h₁, h₂, h₃, h₄⟩ := h
    obtain rfl := Namespace.index_injective hn
    obtain rfl := Slot.place_injective (Prod.ext h₁ (Prod.ext h₂ (Prod.ext h₃ h₄)))
    rw [hp]

variable {a b c : SlotKey}

theorem le_iff : a.le b ↔ (Ord.compare a b).isLE := by
  change (a.compare b != .gt) = true ↔ (a.compare b).isLE = true
  cases a.compare b <;> decide

theorem le_total (a b : SlotKey) : a.le b ∨ b.le a := by
  have hswap : Ord.compare a b = (Ord.compare b a).swap := Std.OrientedCmp.eq_swap
  rw [le_iff, le_iff, hswap]
  cases Ord.compare b a <;> decide

theorem le_trans (a b c : SlotKey) (hab : a.le b) (hbc : b.le c) : a.le c :=
  le_iff.2 (Std.TransCmp.isLE_trans (le_iff.1 hab) (le_iff.1 hbc))

theorem le_antisymm (hab : a.le b) (hba : b.le a) : a = b :=
  Std.LawfulEqCmp.eq_of_compare (Std.OrientedCmp.isLE_antisymm (le_iff.1 hab) (le_iff.1 hba))

theorem pairwise_sortBy_le (ks : List SlotKey) : (sortBy le ks).Pairwise fun a b => a.le b = true :=
  pairwise_sortBy le_total le_trans ks

theorem sortBy_eq_of_perm {ks ls : List SlotKey} (h : ks.Perm ls) : sortBy le ks = sortBy le ls :=
  ServletContainer.sortBy_eq_of_perm le_total le_trans h fun _ _ _ _ => le_antisymm

theorem filter_sortBy (ks : List SlotKey) (p : SlotKey → Bool) :
    (sortBy le ks).filter p = sortBy le (ks.filter p) :=
  ServletContainer.filter_sortBy le_total le_trans (fun _ _ _ _ => le_antisymm) p

theorem pairwise_sortBy_lt {ks : List SlotKey} (h : ks.Nodup) :
    (sortBy le ks).Pairwise fun a b => Ord.compare a b = .lt := by
  have hne : (sortBy le ks).Pairwise (· ≠ ·) := (sortBy_perm le ks).nodup_iff.2 h
  refine ((pairwise_sortBy_le ks).and hne).imp fun {a b} hab => ?_
  have hle := le_iff.1 hab.1
  cases hc : Ord.compare a b with
  | lt => rfl
  | eq => exact absurd (Std.LawfulEqCmp.eq_of_compare hc) hab.2
  | gt => simp [hc] at hle

end SlotKey

end ServletContainer
