/-! Stable sorting by a Boolean order, and insertion into a list kept in ascending key order.
`sortBy_perm` says that sorting only rearranges; `pairwise_insertAsc` that insertion keeps the keys
strictly ascending. -/
namespace ServletContainer

variable {α : Type u} {κ : Type v}

def insertBy (le : α → α → Bool) (x : α) : List α → List α
  | [] => [x]
  | y :: ys => if le x y then x :: y :: ys else y :: insertBy le x ys

/-- Sorts; entries that `le` orders both ways keep their order. -/
def sortBy (le : α → α → Bool) (xs : List α) : List α :=
  xs.foldr (insertBy le) []

theorem insertBy_perm (le : α → α → Bool) (x : α) (xs : List α) :
    (insertBy le x xs).Perm (x :: xs) := by
  induction xs with
  | nil => exact .refl _
  | cons y ys ih =>
    unfold insertBy
    split
    · exact .refl _
    · exact (ih.cons y).trans (.swap x y ys)

theorem sortBy_perm (le : α → α → Bool) (xs : List α) : (sortBy le xs).Perm xs := by
  induction xs with
  | nil => exact .refl _
  | cons x xs ih => exact (insertBy_perm le x _).trans (ih.cons x)

@[simp] theorem mem_sortBy {le : α → α → Bool} {x : α} {xs : List α} :
    x ∈ sortBy le xs ↔ x ∈ xs :=
  (sortBy_perm le xs).mem_iff

def insertAsc [Ord κ] (key : α → κ) (x : α) : List α → List α
  | [] => [x]
  | y :: ys =>
    match compare (key x) (key y) with
    | .lt => x :: y :: ys
    | .eq => x :: ys
    | .gt => y :: insertAsc key x ys

theorem mem_of_mem_insertAsc [Ord κ] {key : α → κ} {x y : α} {xs : List α}
    (h : y ∈ insertAsc key x xs) : y = x ∨ y ∈ xs := by
  induction xs with
  | nil => simpa [insertAsc] using h
  | cons z zs ih =>
    unfold insertAsc at h
    split at h
    · simpa using h
    · rcases List.mem_cons.1 h with h | h
      · exact .inl h
      · exact .inr (List.mem_cons_of_mem _ h)
    · rcases List.mem_cons.1 h with h | h
      · exact .inr (h ▸ List.mem_cons_self)
      · exact (ih h).imp_right (List.mem_cons_of_mem _)

theorem pairwise_insertAsc [Ord κ] [Std.TransOrd κ] {key : α → κ} (x : α) {xs : List α}
    (h : xs.Pairwise fun a b => compare (key a) (key b) = .lt) :
    (insertAsc key x xs).Pairwise fun a b => compare (key a) (key b) = .lt := by
  induction xs with
  | nil => exact List.pairwise_singleton ..
  | cons y ys ih =>
    obtain ⟨hy, hys⟩ := List.pairwise_cons.1 h
    unfold insertAsc
    split
    · rename_i hlt
      refine List.pairwise_cons.2 ⟨fun z hz => ?_, h⟩
      rcases List.mem_cons.1 hz with rfl | hz
      · exact hlt
      · exact Std.TransCmp.lt_trans hlt (hy z hz)
    · rename_i heq
      exact List.pairwise_cons.2 ⟨fun z hz => (Std.TransCmp.congr_left heq).trans (hy z hz), hys⟩
    · rename_i hgt
      refine List.pairwise_cons.2 ⟨fun z hz => ?_, ih hys⟩
      rcases mem_of_mem_insertAsc hz with rfl | hz
      · exact Std.OrientedCmp.lt_of_gt hgt
      · exact hy z hz

end ServletContainer
