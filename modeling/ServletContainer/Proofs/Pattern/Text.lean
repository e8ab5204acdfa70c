import ServletContainer.Pattern
import ServletContainer.Proofs.Context.Resource

/-! The texts of url patterns. Which patterns can be read is told from their shapes alone
(`UrlPattern.Readable`), and each of them is read from its own text and from no other one
(`UrlPattern.parse_eq_ok_iff`). -/
namespace ServletContainer

open Files Text

namespace UrlPattern

variable {u v : UrlPattern} {s t : String} {cs : List Char}

/-- The patterns that can be read. What a shape leaves open holds no star; the path of an exact pattern
starts with a slash and is not that slash alone, and the top of a subtree continues the mount. -/
inductive Readable : UrlPattern → Prop
  | mount : Readable (.exact "")
  | exact {path : String} (hstart : path.toList.head? = some '/') (hne : path ≠ "/")
    (hstar : '*' ∉ path.toList) : Readable (.exact path)
  | subtree {top : String} (hstart : Continues top) (hstar : '*' ∉ top.toList) :
    Readable (.subtree top)
  | extension {ext : String} (hne : ext ≠ "") (hslash : '/' ∉ ext.toList)
    (hstar : '*' ∉ ext.toList) : Readable (.extension ext)
  | fallback : Readable .fallback

theorem parse_eq_ok : parse s = .ok u ↔ parseChars s.toList = some u := by
  unfold parse
  split <;> simp [*]

theorem readable_of_parseChars : parseChars cs = some u → cs = u.text.toList ∧ u.Readable := by
  fun_cases parseChars cs with
  | case1 hnil =>
    rintro ⟨⟩
    exact ⟨hnil, .mount⟩
  | case2 _ hslash =>
    rintro ⟨⟩
    exact ⟨hslash, .fallback⟩
  | case4 _ _ ext hext hopen =>
    rintro ⟨⟩
    have hcs : cs = ['*', '.'] ++ ext := cutStart_eq_some_iff.1 hext
    simp only [Bool.or_eq_true, List.contains_iff_mem, decide_eq_true_eq, not_or] at hopen
    obtain ⟨⟨hne, hslash⟩, hstar⟩ := hopen
    exact ⟨by simp [text, hcs], .extension (by simpa using hne) (by simpa) (by simpa)⟩
  | case7 _ _ _ hhead top htop hstar =>
    rintro ⟨⟩
    have hcs : cs = top ++ ['/', '*'] := cutEnd_eq_some_iff.1 htop
    refine ⟨by simp [text, hcs], .subtree ?_ (by simpa using hstar)⟩
    cases top with
    | nil => exact .inl rfl
    | cons c top => exact .inr (by simpa [hcs] using hhead)
  | case9 _ hslash _ hhead _ hstar =>
    rintro ⟨⟩
    refine ⟨by simp [text], .exact (by simpa using hhead) ?_ (by simpa using hstar)⟩
    rw [Ne, ← String.toList_inj, String.toList_ofList]
    exact hslash
  | _ => exact nofun

theorem parseChars_text (h : u.Readable) : parseChars u.text.toList = some u := by
  cases h with
  | mount => rfl
  | fallback => rfl
  | @extension ext hne hslash hstar =>
    have htext : (extension ext).text.toList = '*' :: '.' :: ext.toList := by simp [text]
    rw [htext]
    simp [parseChars, cutStart, hne, hslash, hstar]
  | @subtree top hstart hstar =>
    have htext : (subtree top).text.toList = top.toList ++ ['/', '*'] := by simp [text]
    have hend : cutEnd ['/', '*'] (top.toList ++ ['/', '*']) = some top.toList :=
      cutEnd_eq_some_iff.2 rfl
    obtain ⟨cs, hcs⟩ : ∃ cs, top.toList ++ ['/', '*'] = '/' :: cs ∧ cs ≠ [] := by
      rcases hstart.eq with rfl | ⟨rest, rfl⟩
      · exact ⟨['*'], rfl, by simp⟩
      · exact ⟨rest.toList ++ ['/', '*'], by simp, by simp⟩
    rw [htext]
    rw [hcs.1] at hend ⊢
    simp [parseChars, hcs.2, cutStart, hend, hstar]
  | @exact path hstart hne hstar =>
    obtain ⟨cs, hcs⟩ := List.head?_eq_some_iff.1 hstart
    have hcsne : cs ≠ [] := by
      rintro rfl
      exact hne (String.toList_inj.1 hcs)
    have hend : cutEnd ['/', '*'] ('/' :: cs) = none := by
      refine Option.eq_none_iff_forall_ne_some.2 fun top htop => hstar ?_
      rw [hcs, cutEnd_eq_some_iff.1 htop]
      simp
    rw [hcs] at hstar
    have hnostar : '*' ∉ cs := fun hmem => hstar (List.mem_cons_of_mem _ hmem)
    have hpath : String.ofList ('/' :: cs) = path := by rw [← hcs, String.ofList_toList]
    simp [text, hcs, parseChars, hcsne, cutStart, hend, hnostar, hpath]

/-- A pattern that can be read is read from its own text and from no other one. -/
theorem parse_eq_ok_iff : parse s = .ok u ↔ s = u.text ∧ u.Readable := by
  rw [parse_eq_ok]
  constructor
  · intro h
    obtain ⟨hs, hread⟩ := readable_of_parseChars h
    exact ⟨String.toList_inj.1 hs, hread⟩
  · rintro ⟨rfl, hread⟩
    exact parseChars_text hread

theorem Readable.ne_slash (h : u.Readable) : u ≠ .exact "/" := by
  cases h with
  | mount => exact fun hslash => absurd (UrlPattern.exact.inj hslash) (by decide)
  | exact _ hne => exact fun hslash => hne (UrlPattern.exact.inj hslash)
  | _ => exact nofun

end UrlPattern

end ServletContainer
