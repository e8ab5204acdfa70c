import ServletContainer.Proofs.Pattern

/-! Which patterns match anything at all. The extension of a path is what follows the last dot, so it has
no dot itself. A pattern for an extension with a dot can be read all the same, and matches nothing; any
other pattern that can be read matches some path (`UrlPattern.satisfiable_iff`). -/
namespace ServletContainer

open Files Text

namespace UrlPattern

variable {u : UrlPattern} {s path ext : String}

def EndsWith (path ext : String) : Prop :=
  ∃ before, afterLast '/' path.toList = before ++ '.' :: ext.toList

theorem hasExtension_iff_endsWith : HasExtension path ext ↔ EndsWith path ext ∧ '.' ∉ ext.toList := by
  simp only [hasExtension_iff, splitLast_eq_some_iff, exists_and_right, EndsWith]

theorem isSome_matches?_extension :
    ((extension ext).matches? path).isSome ↔ EndsWith path ext ∧ '.' ∉ ext.toList := by
  simp [Option.isSome_iff_exists, matches?_extension, hasExtension_iff_endsWith]

theorem endsWith_dot (hslash : '/' ∉ ext.toList) : EndsWith ("/." ++ ext) ext := by
  have hsplit : splitLast '/' ('/' :: '.' :: ext.toList) = some ([], '.' :: ext.toList) :=
    splitLast_append (by simpa using hslash) []
  refine ⟨[], ?_⟩
  simp [afterLast, hsplit]

theorem exists_isSome_matches? (h : u.Readable) (hdot : ∀ ext, u = .extension ext → '.' ∉ ext.toList) :
    ∃ path, Continues path ∧ (u.matches? path).isSome := by
  suffices ∃ path m, Continues path ∧ u.Matches path m by
    obtain ⟨path, m, hpath, hm⟩ := this
    exact ⟨path, hpath, Option.isSome_iff_exists.2 ⟨m, matches?_eq_some_iff.2 hm⟩⟩
  cases h with
  | mount => exact ⟨"", _, .inl rfl, .mount (.inl rfl)⟩
  | @exact path hstart _ _ =>
    have hpath : path ≠ "" := by
      rintro rfl
      cases hstart
    exact ⟨path, _, .inr hstart, .exact hpath⟩
  | @subtree top hstart _ =>
    exact ⟨top, _, hstart, .subtree (String.append_empty ..).symm (.inl rfl)⟩
  | @extension ext _ hslash _ =>
    refine ⟨"/." ++ ext, _, .inr (by simp), .extension ?_⟩
    exact hasExtension_iff_endsWith.2 ⟨endsWith_dot hslash, hdot ext rfl⟩
  | fallback => exact ⟨"", _, .inl rfl, .fallback⟩

/-- Whatever is read as a pattern matches some path below the mount, unless it is an extension with a dot
in it. An extension without a dot matches exactly the paths whose last segment ends with a dot and the
extension, and one with a dot matches none of them. -/
theorem satisfiable_iff (h : UrlPattern.parse s = .ok u) :
    ((∃ path, Continues path ∧ (u.matches? path).isSome) ↔
      ∀ ext, u = .extension ext → '.' ∉ ext.toList) ∧
    ∀ ext, u = .extension ext → s = "*." ++ ext ∧
      (∀ path, (u.matches? path).isSome ↔ EndsWith path ext ∧ '.' ∉ ext.toList) ∧
      ((∀ path, Continues path → ((u.matches? path).isSome ↔ EndsWith path ext)) ↔
        '.' ∉ ext.toList) := by
  obtain ⟨rfl, hread⟩ := parse_eq_ok_iff.1 h
  refine ⟨⟨?_, exists_isSome_matches? hread⟩, ?_⟩
  · rintro ⟨path, _, hsome⟩ ext rfl
    exact (isSome_matches?_extension.1 hsome).2
  · rintro ext rfl
    refine ⟨rfl, fun path => isSome_matches?_extension, fun hexact => ?_, fun hdot path _ => ?_⟩
    · cases hread with
      | extension _ hslash _ =>
        have hmatch := (hexact ("/." ++ ext) (.inr (by simp))).2 (endsWith_dot hslash)
        exact (isSome_matches?_extension.1 hmatch).2
    · rw [isSome_matches?_extension]
      exact and_iff_left hdot

/-- Archives have two extensions, of which paths are matched by the latter alone. -/
theorem satisfiable_iff_archive :
    UrlPattern.parse "*.tar.gz" = .ok (.extension "tar.gz") ∧
      UrlPattern.parse "*.gz" = .ok (.extension "gz") ∧
      (¬ ∃ path, Continues path ∧ ((extension "tar.gz").matches? path).isSome) ∧
      ∀ path, Continues path → (((extension "gz").matches? path).isSome ↔ EndsWith path "gz") := by
  have hboth : UrlPattern.parse "*.tar.gz" = .ok (.extension "tar.gz") := rfl
  have hlast : UrlPattern.parse "*.gz" = .ok (.extension "gz") := rfl
  refine ⟨hboth, hlast, fun hsome => ?_, ?_⟩
  · exact absurd ((satisfiable_iff hboth).1.1 hsome _ rfl) (by decide)
  · exact ((satisfiable_iff hlast).2 _ rfl).2.2.2 (by decide)

theorem unsatisfiable_archive :
    UrlPattern.parse "*.tar.gz" = .ok (.extension "tar.gz") ∧
      (∀ path, (extension "tar.gz").matches? path = none) ∧ EndsWith "/a.tar.gz" "tar.gz" := by
  refine ⟨rfl, fun path => ?_, ⟨['a'], rfl⟩⟩
  rw [← Option.not_isSome_iff_eq_none, isSome_matches?_extension]
  exact fun h => absurd h.2 (by decide)

end UrlPattern

end ServletContainer
