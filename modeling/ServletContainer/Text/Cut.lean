/-! Cutting texts at given characters and pieces. Nothing is lost by a cut: `cutStart_eq_some_iff`,
`cutEnd_eq_some_iff`, `flatMap_splitAll` and `splitLast_eq_some_iff` put the pieces together again. -/
namespace ServletContainer.Text

def cutStart : List Char → List Char → Option (List Char)
  | [], cs => some cs
  | _ :: _, [] => none
  | a :: lead, c :: cs => if a = c then cutStart lead cs else none

theorem cutStart_eq_some_iff {lead cs rest : List Char} :
    cutStart lead cs = some rest ↔ cs = lead ++ rest := by
  induction lead generalizing cs with
  | nil => simp [cutStart]
  | cons a lead ih =>
    cases cs with
    | nil => simp [cutStart]
    | cons c cs =>
      by_cases h : a = c
      · simp [cutStart, h, ih]
      · simp [cutStart, h, Ne.symm h]

def cutEnd (tail cs : List Char) : Option (List Char) :=
  (cutStart tail.reverse cs.reverse).map List.reverse

theorem cutEnd_eq_some_iff {tail cs rest : List Char} :
    cutEnd tail cs = some rest ↔ cs = rest ++ tail := by
  rw [cutEnd, Option.map_eq_some_iff]
  constructor
  · rintro ⟨r, hr, rfl⟩
    have := cutStart_eq_some_iff.1 hr
    rw [← List.reverse_reverse cs, this]
    simp
  · rintro rfl
    exact ⟨rest.reverse, cutStart_eq_some_iff.2 (by simp), by simp⟩

/-- The pieces between the occurrences of `c`; there is always one. -/
def splitAll (c : Char) : List Char → List (List Char)
  | [] => [[]]
  | x :: xs =>
    if x = c then [] :: splitAll c xs
    else
      match splitAll c xs with
      | [] => [[x]]
      | p :: ps => (x :: p) :: ps

theorem splitAll_ne_nil (c : Char) (cs : List Char) : splitAll c cs ≠ [] := by
  cases cs with
  | nil => simp [splitAll]
  | cons x xs =>
    unfold splitAll
    split
    · simp
    · split <;> simp

theorem splitAll_append_cons (c : Char) (as bs : List Char) :
    splitAll c (as ++ c :: bs) = splitAll c as ++ splitAll c bs := by
  induction as with
  | nil => simp [splitAll]
  | cons x xs ih =>
    by_cases hx : x = c
    · simp [splitAll, hx, ih]
    · obtain ⟨p, ps, hp⟩ := List.exists_cons_of_ne_nil (splitAll_ne_nil c xs)
      simp [splitAll, hx, ih, hp]

theorem flatMap_splitAll (c : Char) (cs : List Char) : (splitAll c cs).flatMap (c :: ·) = c :: cs := by
  induction cs with
  | nil => rfl
  | cons x xs ih =>
    by_cases hx : x = c
    · simp [splitAll, hx, ih]
    · obtain ⟨p, ps, hp⟩ := List.exists_cons_of_ne_nil (splitAll_ne_nil c xs)
      rw [hp] at ih
      simpa [splitAll, hx, hp] using ih

theorem not_mem_of_mem_splitAll {c : Char} {cs piece : List Char} (h : piece ∈ splitAll c cs) :
    c ∉ piece := by
  induction cs generalizing piece with
  | nil => simp_all [splitAll]
  | cons x xs ih =>
    obtain ⟨p, ps, hp⟩ := List.exists_cons_of_ne_nil (splitAll_ne_nil c xs)
    by_cases hx : x = c
    · rw [splitAll, if_pos hx, List.mem_cons] at h
      rcases h with rfl | h
      · exact List.not_mem_nil
      · exact ih h
    · simp only [splitAll, hx, if_false, hp, List.mem_cons] at h
      rcases h with rfl | h
      · have hpiece : c ∉ p := ih (hp ▸ List.mem_cons_self)
        simp [hpiece, Ne.symm hx]
      · exact ih (hp ▸ List.mem_cons_of_mem _ h)

theorem of_nil_mem_splitAll {c : Char} {cs : List Char} (h : [] ∈ splitAll c cs) :
    (c :: cs).getLast? = some c ∨ [c, c] <:+: c :: cs := by
  obtain ⟨before, after, hsplit⟩ := List.append_of_mem h
  have hcs := flatMap_splitAll c cs
  rw [hsplit, List.flatMap_append, List.flatMap_cons] at hcs
  cases after with
  | nil => exact .inl (by simp [← hcs])
  | cons piece after =>
    exact .inr ⟨before.flatMap (c :: ·), piece ++ after.flatMap (c :: ·), by simp [← hcs]⟩

def splitLast (c : Char) : List Char → Option (List Char × List Char)
  | [] => none
  | x :: xs =>
    match splitLast c xs with
    | some (before, after) => some (x :: before, after)
    | none => if x = c then some ([], xs) else none

def splitFirst (c : Char) : List Char → Option (List Char × List Char)
  | [] => none
  | x :: xs =>
    if x = c then some ([], xs)
    else (splitFirst c xs).map fun (before, after) => (x :: before, after)

theorem splitLast_eq {c : Char} {cs before after : List Char}
    (h : splitLast c cs = some (before, after)) : cs = before ++ c :: after := by
  induction cs generalizing before after with
  | nil => simp [splitLast] at h
  | cons x xs ih =>
    unfold splitLast at h
    split at h
    · rename_i b a hb
      obtain ⟨rfl, rfl⟩ := Prod.mk.inj (Option.some.inj h)
      rw [ih hb]
      rfl
    · split at h
      · rename_i hx
        obtain ⟨rfl, rfl⟩ := Prod.mk.inj (Option.some.inj h)
        rw [hx]
        rfl
      · cases h

theorem splitLast_eq_none_iff {c : Char} {cs : List Char} : splitLast c cs = none ↔ c ∉ cs := by
  induction cs with
  | nil => simp [splitLast]
  | cons x xs ih =>
    unfold splitLast
    cases hxs : splitLast c xs with
    | none => simp [ih.1 hxs, eq_comm]
    | some found =>
      have hmem : c ∈ xs := by simpa [hxs] using ih
      simp [hmem]

theorem splitLast_append {c : Char} {after : List Char} (h : c ∉ after) (before : List Char) :
    splitLast c (before ++ c :: after) = some (before, after) := by
  induction before with
  | nil => simp [splitLast, splitLast_eq_none_iff.2 h]
  | cons x xs ih => simp [splitLast, ih]

theorem splitLast_eq_some_iff {c : Char} {cs before after : List Char} :
    splitLast c cs = some (before, after) ↔ cs = before ++ c :: after ∧ c ∉ after := by
  constructor
  · intro h
    refine ⟨splitLast_eq h, ?_⟩
    induction cs generalizing before with
    | nil => cases h
    | cons x xs ih =>
      unfold splitLast at h
      split at h
      · rename_i hxs
        cases h
        exact ih hxs
      · rename_i hxs
        split at h <;> cases h
        exact splitLast_eq_none_iff.1 hxs
  · rintro ⟨rfl, hc⟩
    exact splitLast_append hc before

/-- The part after the last occurrence of `c`, the whole text if there is none. -/
def afterLast (c : Char) (cs : List Char) : List Char :=
  match splitLast c cs with
  | some (_, after) => after
  | none => cs

theorem exists_eq_append_afterLast (c : Char) (cs : List Char) :
    c ∉ afterLast c cs ∧ (cs = afterLast c cs ∨ ∃ before, cs = before ++ c :: afterLast c cs) := by
  unfold afterLast
  split
  · rename_i h
    obtain ⟨hcs, hc⟩ := splitLast_eq_some_iff.1 h
    exact ⟨hc, .inr ⟨_, hcs⟩⟩
  · rename_i h
    exact ⟨splitLast_eq_none_iff.1 h, .inl rfl⟩

/-- What follows the last `d` of the part after the last `c` follows the last `d` of the whole text,
if no `c` comes after that. -/
theorem splitLast_afterLast {c d : Char} (hcd : c ≠ d) {cs after : List Char} :
    (∃ before, splitLast d (afterLast c cs) = some (before, after)) ↔
      ∃ before, cs = before ++ d :: after ∧ d ∉ after ∧ c ∉ after := by
  obtain ⟨hc, hcs⟩ := exists_eq_append_afterLast c cs
  constructor
  · rintro ⟨before, h⟩
    obtain ⟨hlast, hd⟩ := splitLast_eq_some_iff.1 h
    have hafter : c ∉ after := fun hmem => hc (by simp [hlast, hmem])
    rcases hcs with hcs | ⟨top, hcs⟩
    · exact ⟨before, hcs.trans hlast, hd, hafter⟩
    · refine ⟨top ++ c :: before, ?_, hd, hafter⟩
      rw [hcs, hlast, List.append_assoc, List.cons_append]
  · rintro ⟨before, hbefore, hd, hafter⟩
    rcases hcs with hcs | ⟨top, hcs⟩
    · exact ⟨before, by rw [← hcs, hbefore, splitLast_append hd]⟩
    · rcases List.append_eq_append_iff.1 (hcs.symm.trans hbefore) with ⟨rest, _, hrest⟩ | ⟨rest, _, hrest⟩
      · cases rest with
        | nil => exact absurd (List.cons.inj hrest).1 hcd
        | cons _ rest => exact ⟨rest, by rw [(List.cons.inj hrest).2]; exact splitLast_append hd rest⟩
      · cases rest with
        | nil => exact absurd (List.cons.inj hrest).1.symm hcd
        | cons _ rest =>
          exact absurd ((List.cons.inj hrest).2 ▸ List.mem_append_right rest List.mem_cons_self) hafter

end ServletContainer.Text
