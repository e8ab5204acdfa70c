import ServletContainer.Element.Basic
import ServletContainer.Proofs.Ordered

/-! The order in which elements are preferred. It is strict and decides between any two elements of
different numbers, so that sorting leaves the best first and no two of equal standing
(`Element.ranked_inOrder`). -/
namespace ServletContainer

namespace TieBreak

theorem lt_irrefl (a : TieBreak) : ¬ a.lt a := by
  simp [lt]

theorem lt_trans {a b c : TieBreak} (hab : a.lt b) (hbc : b.lt c) : a.lt c := by
  obtain ⟨da, ra, sa, ia⟩ := a
  obtain ⟨db, rb, sb, ib⟩ := b
  obtain ⟨dc, rc, sc, ic⟩ := c
  cases da <;> cases db <;> cases dc <;> simp [lt] at hab hbc ⊢ <;> grind

theorem lt_or_lt_of_id_ne {a b : TieBreak} (h : a.id ≠ b.id) : a.lt b ∨ b.lt a := by
  obtain ⟨da, ra, sa, ia⟩ := a
  obtain ⟨db, rb, sb, ib⟩ := b
  cases da <;> cases db <;> simp [lt] at h ⊢ <;> grind

theorem lt_iff_of_rank_ne {a b : TieBreak} (hdynamic : a.dynamic = b.dynamic)
    (hrank : a.rank ≠ b.rank) : a.lt b ↔ b.rank < a.rank := by
  simp [lt, hdynamic, hrank]

theorem dynamic_of_lt {a b : TieBreak} (h : a.lt b) (hb : b.dynamic) : a.dynamic := by
  simp only [lt, hb] at h
  grind

section MayPrecede

theorem not_lt_total (a b : TieBreak) : !b.lt a ∨ !a.lt b := by
  simp only [Bool.not_eq_true']
  by_contra hno
  obtain ⟨hba, hab⟩ := not_or.1 hno
  exact lt_irrefl a (lt_trans (Bool.eq_true_of_not_eq_false hab) (Bool.eq_true_of_not_eq_false hba))

theorem not_lt_trans (a b c : TieBreak) (hba : !b.lt a) (hcb : !c.lt b) : !c.lt a := by
  obtain ⟨da, ra, sa, ia⟩ := a
  obtain ⟨db, rb, sb, ib⟩ := b
  obtain ⟨dc, rc, sc, ic⟩ := c
  cases da <;> cases db <;> cases dc <;> simp [lt] at hba hcb ⊢ <;> grind

theorem id_eq_of_not_lt {a b : TieBreak} (hba : !b.lt a) (hab : !a.lt b) : a.id = b.id := by
  by_contra hne
  rcases lt_or_lt_of_id_ne hne with h | h <;> simp_all

variable {α : Type u} {f : α → TieBreak} {xs ys : List α}

theorem pairwise_sortBy (h : (xs.map fun x => (f x).id).Nodup) :
    (sortBy (fun a b => !(f b).lt (f a)) xs).Pairwise fun a b => (f a).lt (f b) := by
  have hle : (sortBy (fun a b => !(f b).lt (f a)) xs).Pairwise
      fun a b => (!(f b).lt (f a)) = true :=
    ServletContainer.pairwise_sortBy (fun a b => not_lt_total (f a) (f b))
      (fun a b c => not_lt_trans (f a) (f b) (f c)) xs
  have hne : (sortBy (fun a b => !(f b).lt (f a)) xs).Pairwise fun a b => (f a).id ≠ (f b).id :=
    List.pairwise_map.1 (((sortBy_perm _ xs).map fun x => (f x).id).nodup_iff.2 h)
  exact (hle.and hne).imp fun hab =>
    (lt_or_lt_of_id_ne hab.2).resolve_right (by simpa using hab.1)

theorem sortBy_eq_of_perm (h : xs.Perm ys)
    (hids : ∀ a ∈ xs, ∀ b ∈ xs, (f a).id = (f b).id → a = b) :
    sortBy (fun a b => !(f b).lt (f a)) xs = sortBy (fun a b => !(f b).lt (f a)) ys :=
  ServletContainer.sortBy_eq_of_perm (fun a b => not_lt_total (f a) (f b))
    (fun a b c => not_lt_trans (f a) (f b) (f c)) h
    fun a ha b hb hab hba => hids a ha b hb (id_eq_of_not_lt hab hba)

theorem filter_sortBy (hids : ∀ a ∈ xs, ∀ b ∈ xs, (f a).id = (f b).id → a = b) (p : α → Bool) :
    (sortBy (fun a b => !(f b).lt (f a)) xs).filter p =
      sortBy (fun a b => !(f b).lt (f a)) (xs.filter p) :=
  ServletContainer.filter_sortBy (fun a b => not_lt_total (f a) (f b))
    (fun a b c => not_lt_trans (f a) (f b) (f c))
    (fun a ha b hb hab hba => hids a ha b hb (id_eq_of_not_lt hab hba)) p

end MayPrecede

end TieBreak

namespace Element

variable {es : List Element}

/-- The better elements come first. -/
def Ranked (es : List Element) : Prop := es.Pairwise fun a b => a.tieBreak.lt b.tieBreak

theorem ranked_inOrder (h : (es.map (·.id)).Nodup) : Ranked (inOrder es) :=
  TieBreak.pairwise_sortBy h

@[simp] theorem mem_inOrder {e : Element} : e ∈ inOrder es ↔ e ∈ es := mem_sortBy

theorem Ranked.filter (h : Ranked es) (p : Element → Bool) : Ranked (es.filter p) :=
  List.Pairwise.filter p h

/-- Ranked lists with the same members are the same. -/
theorem Ranked.ext_mem {fs : List Element} (he : Ranked es) (hf : Ranked fs)
    (h : ∀ e, e ∈ es ↔ e ∈ fs) : es = fs := by
  have : Std.Irrefl fun a b : Element => a.tieBreak.lt b.tieBreak = true :=
    ⟨fun a => TieBreak.lt_irrefl _⟩
  have : Std.Antisymm fun a b : Element => a.tieBreak.lt b.tieBreak = true :=
    ⟨fun a b hab hba => absurd (TieBreak.lt_trans hab hba) (TieBreak.lt_irrefl _)⟩
  exact List.Pairwise.eq_of_mem_iff he hf h

end Element

end ServletContainer
