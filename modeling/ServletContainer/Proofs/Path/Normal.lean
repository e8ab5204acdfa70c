import Mathlib.Data.List.DropRight
import ServletContainer.Proofs.Path

/-! The normal form of mount paths: a slash before each segment, of which none is empty and none leads up
(`ContextPath.Normal.exists_segments`). The blanks at the end of a text are dropped before its slashes are,
so that a blank before the slashes stays. A mount path is read from its own text exactly if it does not end
with a blank (`ContextPath.parse_text_iff`). -/
namespace ServletContainer

namespace Text

variable {p : Char → Bool} {c : Char} {cs : List Char}

theorem dropEnd_eq_rdropWhile (p : Char → Bool) (cs : List Char) : dropEnd p cs = cs.rdropWhile p := rfl

theorem dropEnd_eq_self_iff : dropEnd p cs = cs ↔ ∀ c, cs.getLast? = some c → p c = false := by
  rw [dropEnd_eq_rdropWhile, List.rdropWhile_eq_self_iff]
  cases cs using List.reverseRecOn <;> simp

theorem getLast?_dropEnd (h : (dropEnd p cs).getLast? = some c) : p c = false :=
  dropEnd_eq_self_iff.1 (List.rdropWhile_idempotent p cs) c h

theorem exists_eq_dropEnd_append (p : Char → Bool) (cs : List Char) :
    ∃ rest, cs = dropEnd p cs ++ rest ∧ ∀ c ∈ rest, p c :=
  ⟨cs.rtakeWhile p, List.rdropWhile_append_rtakeWhile.symm, fun _ => List.mem_rtakeWhile_imp⟩

end Text

namespace ContextPath

open Text

variable {p : ContextPath} {s : String} {cs q : List Char}

theorem hasEmptySegment_iff : hasEmptySegment cs ↔ ['/', '/'] <:+: cs := by
  fun_induction hasEmptySegment cs with
  | case1 cs => simpa using (List.prefix_append ['/', '/'] cs).isInfix
  | case2 c cs hne ih =>
    rw [ih, List.infix_cons_iff, or_iff_right]
    rintro ⟨rest, hrest⟩
    obtain ⟨rfl, hcs⟩ := List.cons.inj hrest
    exact hne rest rfl hcs.symm
  | case3 => simp

/-- A text other than a slash that can be a mount path. -/
structure Plain (cs : List Char) : Prop where
  rooted : cs.head? = some '/'
  no_empty : ¬ ['/', '/'] <:+: cs
  no_special : ∀ c ∈ cs, c ≠ '*' ∧ c ≠ '?' ∧ c ≠ '#' ∧ c ≠ ' '
  no_parent : ['.', '.'] ∉ splitAll '/' cs

theorem isPlain_iff : isPlain cs ↔ Plain cs := by
  simp only [isPlain, Bool.and_eq_true, beq_iff_eq, Bool.not_eq_true', ← Bool.not_eq_true,
    hasEmptySegment_iff, List.any_eq_true, Bool.or_eq_true, not_exists, not_and, not_or,
    List.contains_iff_mem]
  constructor
  · rintro ⟨⟨⟨hrooted, hempty⟩, hspecial⟩, hparent⟩
    exact ⟨hrooted, hempty, fun c hc => by simpa [and_assoc] using hspecial c hc, hparent⟩
  · rintro ⟨hrooted, hempty, hspecial, hparent⟩
    exact ⟨⟨⟨hrooted, hempty⟩, fun c hc => by simpa [and_assoc] using hspecial c hc⟩, hparent⟩

/-- The text of a mount path other than the root. -/
structure Normal (cs : List Char) : Prop extends Plain cs where
  no_slash : cs.getLast? ≠ some '/'

theorem Plain.normal (h : Plain cs) (hne : cs ≠ ['/']) : Normal (dropEnd (· == '/') cs) := by
  obtain ⟨rest, hcs, hrest⟩ := exists_eq_dropEnd_append (· == '/') cs
  have hfront : dropEnd (· == '/') cs <+: cs := List.rdropWhile_prefix _ _
  refine ⟨⟨?_, fun hempty => h.no_empty (hempty.trans hfront.isInfix),
    fun c hc => h.no_special c (hfront.subset hc), fun hparent => h.no_parent ?_⟩, fun hlast => ?_⟩
  · obtain ⟨tail, rfl⟩ := List.head?_eq_some_iff.1 h.rooted
    rw [dropEnd_cons, if_neg, List.head?_cons]
    intro hnil
    cases tail with
    | nil => exact hne rfl
    | cons c tail =>
      have hc : c = '/' := by
        simpa using List.rdropWhile_eq_nil_iff.1 hnil c List.mem_cons_self
      exact h.no_empty ⟨[], tail, by rw [hc]; rfl⟩
  · cases rest with
    | nil => rwa [hcs, List.append_nil]
    | cons c rest =>
      obtain rfl : c = '/' := by simpa using hrest c List.mem_cons_self
      rw [hcs, splitAll_append_cons]
      exact List.mem_append_left _ hparent
  · simpa using getLast?_dropEnd hlast

theorem Normal.exists_segments (h : Normal cs) :
    ∃ segs, segs ≠ [] ∧ cs = segs.flatMap ('/' :: ·) ∧
      ∀ seg ∈ segs, '/' ∉ seg ∧ seg ≠ [] ∧ seg ≠ ['.', '.'] := by
  obtain ⟨tail, rfl⟩ := List.head?_eq_some_iff.1 h.rooted
  refine ⟨splitAll '/' tail, splitAll_ne_nil '/' tail, (flatMap_splitAll '/' tail).symm,
    fun seg hseg => ⟨not_mem_of_mem_splitAll hseg, ?_, ?_⟩⟩
  · rintro rfl
    exact (of_nil_mem_splitAll hseg).elim h.no_slash h.no_empty
  · rintro rfl
    exact h.no_parent (List.mem_cons_of_mem _ hseg)

theorem normalize_eq_ok_iff : normalize cs = .ok q ↔
    q = ['/'] ∧ (trimChars cs = [] ∨ trimChars cs = ['/']) ∨
      Plain (trimChars cs) ∧ trimChars cs ≠ ['/'] ∧ q = dropEnd (· == '/') (trimChars cs) := by
  constructor
  · intro h
    simp only [normalize] at h
    split at h
    · rename_i hroot
      cases h
      exact .inl ⟨rfl, hroot⟩
    · rename_i hroot
      split at h <;> cases h
      rename_i hplain
      exact .inr ⟨isPlain_iff.1 hplain, fun hslash => hroot (.inr hslash), rfl⟩
  · rintro (⟨rfl, hroot⟩ | ⟨hplain, hne, rfl⟩)
    · exact if_pos hroot
    · have hroot : ¬ (trimChars cs = [] ∨ trimChars cs = ['/']) := by
        rintro (hnil | hslash)
        · exact nomatch (hnil ▸ hplain.rooted : ([] : List Char).head? = some '/')
        · exact hne hslash
      simp [normalize, hroot, isPlain_iff.2 hplain]

/-- What is made is the root or in normal form. -/
theorem normal_of_normalize (h : normalize cs = .ok q) : q = ['/'] ∨ Normal q := by
  rcases normalize_eq_ok_iff.1 h with ⟨rfl, _⟩ | ⟨hplain, hne, rfl⟩
  · exact .inl rfl
  · exact .inr (hplain.normal hne)

theorem Normal.trimChars_eq (h : Normal cs) : trimChars cs = dropEnd isBlank cs := by
  obtain ⟨tail, rfl⟩ := List.head?_eq_some_iff.1 h.rooted
  rfl

theorem Normal.normalize_eq_iff (h : Normal cs) :
    normalize cs = .ok cs ↔ ∀ c, cs.getLast? = some c → isBlank c = false := by
  rw [← dropEnd_eq_self_iff, ← h.trimChars_eq, normalize_eq_ok_iff]
  have hroot : cs ≠ ['/'] := by
    rintro rfl
    exact h.no_slash rfl
  constructor
  · rintro (⟨hslash, _⟩ | ⟨_, _, hcs⟩)
    · exact absurd hslash hroot
    · -- what is dropped at the end of the text twice over is nothing
      have htrim : trimChars cs <+: cs := h.trimChars_eq ▸ List.rdropWhile_prefix _ _
      have hcs : cs <+: trimChars cs := by
        conv_lhs => rw [hcs]
        exact List.rdropWhile_prefix _ _
      exact htrim.eq_of_length_le hcs.length_le
  · intro htrim
    have hslash : dropEnd (· == '/') cs = cs := dropEnd_eq_self_iff.2 fun c hc => by
      rw [beq_eq_false_iff_ne]
      rintro rfl
      exact h.no_slash hc
    rw [htrim, hslash]
    exact .inr ⟨h.toPlain, hroot, rfl⟩

theorem parse_eq_ok_iff : parse s = .ok p ↔ normalize s.toList = .ok p.text.toList := by
  unfold parse
  cases normalize s.toList with
  | error _ => simp
  | ok q =>
    have htext : ∀ t : String, String.ofList q = t ↔ q = t.toList := fun t => by
      rw [← String.toList_inj, String.toList_ofList]
    cases p
    simp [htext]

/-- A mount path is the root or has a slash before each segment, with no slash at its end, and no segment
is empty or leads up. It is read from its own text if and only if it does not end with a blank. -/
theorem parse_text_iff (h : parse s = .ok p) :
    (p = .root ∨ p.text.toList.head? = some '/' ∧ p.text.toList.getLast? ≠ some '/' ∧
      ∃ segs, segs ≠ [] ∧ p.text.toList = segs.flatMap ('/' :: ·) ∧
        ∀ seg ∈ segs, '/' ∉ seg ∧ seg ≠ [] ∧ seg ≠ ['.', '.']) ∧
    (parse p.text = .ok p ↔ ∀ c, p.text.toList.getLast? = some c → isBlank c = false) := by
  rcases normal_of_normalize (parse_eq_ok_iff.1 h) with hroot | hnormal
  · obtain rfl : p = .root := toList_eq_slash_iff.1 hroot
    refine ⟨.inl rfl, fun _ c hc => ?_, fun _ => rfl⟩
    obtain rfl : '/' = c := Option.some.inj hc
    rfl
  · exact ⟨.inr ⟨hnormal.rooted, hnormal.no_slash, hnormal.exists_segments⟩,
      parse_eq_ok_iff.trans hnormal.normalize_eq_iff⟩

/-- Blanks around a path are dropped, and a tabulator before its last slash is kept. -/
theorem parse_text_iff_blank :
    parse " /a/b/ " = .ok ⟨"/a/b"⟩ ∧ parse "/a/b" = .ok ⟨"/a/b"⟩ ∧
      parse "/a\t/" = .ok ⟨"/a\t"⟩ ∧ parse "/a\t" ≠ .ok ⟨"/a\t"⟩ := by
  have hplain : parse " /a/b/ " = .ok ⟨"/a/b"⟩ := rfl
  have hblank : parse "/a\t/" = .ok ⟨"/a\t"⟩ := rfl
  refine ⟨hplain, (parse_text_iff hplain).2.2 ?_, hblank, fun hsame => ?_⟩
  · rintro c ⟨⟩
    rfl
  · exact absurd ((parse_text_iff hblank).2.1 hsame '\t' rfl) (by decide)

/-- The text of one mount path is read as another one. -/
theorem parse_text_respelled :
    parse "/a\t/" = .ok ⟨"/a\t"⟩ ∧ parse "/a\t" = .ok ⟨"/a"⟩ ∧
      (⟨"/a\t"⟩ : ContextPath) ≠ ⟨"/a"⟩ :=
  ⟨rfl, rfl, by decide⟩

end ContextPath

end ServletContainer
