import ServletContainer.Path
import ServletContainer.Proofs.Context.Resource

/-! Mount paths and the request paths that they contain. What is below a mount, put after its path again,
is the request path (`ContextPath.below_eq_some_iff`), and of two mount paths that contain a request path
one is longer (`ContextPath.Contains.eq_of_size`). -/
namespace ServletContainer

open Files Text

theorem eq_of_append_eq_append {a b s t : String} (h : a ++ s = b ++ t)
    (hsize : a.utf8ByteSize = b.utf8ByteSize) : a = b := by
  have hempty {a b : String} {cs : List Char} (hlist : b.toList = a.toList ++ cs)
      (hsize : a.utf8ByteSize = b.utf8ByteSize) : a = b := by
    have hb : b = a ++ String.ofList cs := String.toList_injective (by simp [hlist])
    rw [hb, String.utf8ByteSize_append] at hsize
    have hcs : String.ofList cs = "" := String.utf8ByteSize_eq_zero_iff.1 (by omega)
    rw [hb, hcs, String.append_empty]
  have hlist : a.toList ++ s.toList = b.toList ++ t.toList := by
    rw [← String.toList_append, ← String.toList_append, h]
  rcases List.append_eq_append_iff.1 hlist with ⟨cs, hb, _⟩ | ⟨cs, ha, _⟩
  · exact hempty hb hsize
  · exact (hempty ha hsize.symm).symm

namespace ContextPath

variable {p q : ContextPath} {path relative : String}

/-- The root contains what starts with a slash, any other mount path what it is continued to. -/
def Contains (p : ContextPath) (path : String) : Prop :=
  p = .root ∧ path.toList.head? = some '/' ∨ ∃ rest, path = p.text ++ rest ∧ Continues rest

theorem exists_of_head? (h : path.toList.head? = some '/') : ∃ rest, path = "/" ++ rest := by
  obtain rfl | hrest := Continues.eq (.inr h)
  · cases h
  · exact hrest

theorem contains_root : root.Contains path ↔ path.toList.head? = some '/' := by
  refine ⟨?_, fun h => .inl ⟨rfl, h⟩⟩
  rintro (⟨_, h⟩ | ⟨rest, rfl, _⟩)
  · exact h
  · simp [root]

theorem contains_of_ne (hp : p ≠ .root) :
    p.Contains path ↔ ∃ rest, path = p.text ++ rest ∧ Continues rest := by
  simp [Contains, hp]

theorem Contains.exists_rest (h : p.Contains path) : ∃ rest, path = p.text ++ rest := by
  rcases h with ⟨rfl, h⟩ | ⟨rest, hrest, _⟩
  · exact exists_of_head? h
  · exact ⟨rest, hrest⟩

/-- Of two mount paths that contain a request path, one is longer. -/
theorem Contains.eq_of_size (hp : p.Contains path) (hq : q.Contains path)
    (h : p.text.utf8ByteSize = q.text.utf8ByteSize) : p = q := by
  obtain ⟨s, hs⟩ := hp.exists_rest
  obtain ⟨t, ht⟩ := hq.exists_rest
  cases p
  cases q
  exact congrArg mk (eq_of_append_eq_append (hs.symm.trans ht) h)

theorem toList_eq_slash_iff : p.text.toList = ['/'] ↔ p = .root := by
  constructor
  · intro h
    cases p
    exact congrArg mk (String.toList_injective h)
  · rintro rfl
    rfl

theorem belowChars_of_ne (hp : p ≠ .root) {cs rest : List Char} :
    belowChars p.text.toList cs = some rest ↔
      cs = p.text.toList ++ rest ∧ (rest = [] ∨ rest.head? = some '/') := by
  rw [belowChars, if_neg (mt toList_eq_slash_iff.1 hp), ← cutStart_eq_some_iff]
  cases cutStart p.text.toList cs with
  | none => simp
  | some found =>
    by_cases h : found = [] ∨ found.head? = some '/'
    · simp only [h, if_true, Option.some.injEq, iff_self_and]
      rintro rfl
      exact h
    · simp only [h, if_false, Option.some.injEq, reduceCtorEq, false_iff, not_and]
      rintro rfl
      exact h

theorem continues_ofList {cs : List Char} :
    Continues (String.ofList cs) ↔ cs = [] ∨ cs.head? = some '/' := by
  simp [Continues]

@[simp] theorem lead_root : root.lead = "" := rfl

theorem lead_of_ne (hp : p ≠ .root) : p.lead = p.text := by
  have hroot : ¬ p.isRoot := fun h => hp (toList_eq_slash_iff.1 (by rw [beq_iff_eq.1 h]; rfl))
  simp [lead, hroot]

/-- What follows the lead of a mount path in a request path that it contains is empty or starts with a
slash. -/
theorem Contains.exists_relative (h : p.Contains path) :
    ∃ relative, path = p.lead ++ relative ∧ Continues relative := by
  by_cases hp : p = .root
  · subst hp
    exact ⟨path, (String.empty_append ..).symm, .inr (contains_root.1 h)⟩
  · rw [lead_of_ne hp]
    exact (contains_of_ne hp).1 h

/-- What is below a mount, put after its path again, is the request path, which the mount contains. -/
theorem below_eq_some_iff :
    below p.text path = some relative ↔ p.Contains path ∧ path = p.lead ++ relative := by
  by_cases hp : p = .root
  · subst hp
    have hbelow : below root.text path = if path.toList.head? = some '/' then some path else none := by
      rw [below, belowChars, if_pos (toList_eq_slash_iff.2 rfl)]
      split <;> simp
    rw [hbelow, contains_root, lead_root, String.empty_append]
    split <;> simp_all
  · rw [contains_of_ne hp, lead_of_ne hp, below, Option.map_eq_some_iff]
    constructor
    · rintro ⟨rest, hrest, rfl⟩
      obtain ⟨hpath, hcontinues⟩ := (belowChars_of_ne hp).1 hrest
      have hwhole : path = p.text ++ String.ofList rest :=
        String.toList_injective (by simp [hpath])
      exact ⟨⟨_, hwhole, continues_ofList.2 hcontinues⟩, hwhole⟩
    · rintro ⟨⟨rest, hrest, hcontinues⟩, hwhole⟩
      obtain rfl := (String.append_right_inj _).1 (hwhole.symm.trans hrest)
      refine ⟨relative.toList, (belowChars_of_ne hp).2 ⟨by simp [hrest], ?_⟩, by simp⟩
      exact continues_ofList.1 (by simpa using hcontinues)

/-- A mount does not contain a path that goes on within its last segment. -/
example : below "/c1" "/c10" = none := by decide

theorem isSome_below_iff : (below p.text path).isSome ↔ p.Contains path := by
  rw [Option.isSome_iff_exists]
  constructor
  · rintro ⟨relative, h⟩
    exact (below_eq_some_iff.1 h).1
  · intro h
    obtain ⟨relative, hpath, _⟩ := h.exists_relative
    exact ⟨relative, below_eq_some_iff.2 ⟨h, hpath⟩⟩

theorem continues_of_below (h : below p.text path = some relative) : Continues relative := by
  obtain ⟨hcontains, hpath⟩ := below_eq_some_iff.1 h
  obtain ⟨rest, hrest, hcontinues⟩ := hcontains.exists_relative
  rwa [(String.append_right_inj _).1 (hpath.symm.trans hrest)]

end ContextPath

end ServletContainer
