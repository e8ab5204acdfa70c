import ServletContainer.Proofs.Alias.Registration
import ServletContainer.Proofs.Pattern

/-! What an alias covers. The root covers every path; any other alias covers itself, by its exact pattern,
and what lies below it, by its subtree (`Aliases.isSome_bestMatch_iff`). The element of a valid alias can
always be built, it matches the paths that the alias covers, and it shares neither its name nor a pattern
with the element of another alias (`Aliases.build_covers`). -/
namespace ServletContainer

open Files

namespace Aliases

variable {a path : String}

theorem ne_empty_of_isValid (h : isValid a) : a ≠ "" := by
  rintro rfl
  cases (plain_of_isValid h).1

theorem bestMatch_root (hpath : Continues path) : (Patterns.urls (patterns "/")).bestMatch path =
    some ⟨.subtree 0, "", if path = "" then none else some path⟩ := by
  have hmatch : (UrlPattern.subtree "").matches? path = some _ :=
    UrlPattern.matches?_subtree.2 ⟨path, (String.empty_append ..).symm, hpath, rfl⟩
  simp [Patterns.bestMatch, patterns, hmatch, Patterns.better]

theorem bestMatch_self (h : isValid a) (hroot : a ≠ "/") :
    (Patterns.urls (patterns a)).bestMatch a = some ⟨.exact, a, none⟩ := by
  have hexact : (UrlPattern.exact a).matches? a = some ⟨.exact, a, none⟩ := by
    rw [UrlPattern.matches?_exact (ne_empty_of_isValid h), if_pos rfl]
  have hsubtree : (UrlPattern.subtree a).matches? a = some _ :=
    UrlPattern.matches?_subtree.2 ⟨"", (String.append_empty ..).symm, .inl rfl, rfl⟩
  simp [Patterns.bestMatch, patterns, hroot, hexact, hsubtree, Patterns.better, MatchKind.lt,
    MatchKind.weight]

theorem bestMatch_below (h : isValid a) (hroot : a ≠ "/") (rest : String) :
    (Patterns.urls (patterns a)).bestMatch (a ++ "/" ++ rest) =
      some ⟨.subtree a.utf8ByteSize, a, some ("/" ++ rest)⟩ := by
  have hne : "/" ++ rest ≠ "" := by simp
  have hlonger : a ++ "/" ++ rest ≠ a := by
    rw [String.append_assoc]
    exact fun heq => hne (String.append_eq_left_iff.1 heq)
  have hexact : (UrlPattern.exact a).matches? (a ++ "/" ++ rest) = none := by
    rw [UrlPattern.matches?_exact (ne_empty_of_isValid h), if_neg hlonger]
  have hsubtree : (UrlPattern.subtree a).matches? (a ++ "/" ++ rest) =
      some ⟨.subtree a.utf8ByteSize, a, some ("/" ++ rest)⟩ :=
    UrlPattern.matches?_subtree.2
      ⟨"/" ++ rest, String.append_assoc .., .inr (by simp), by rw [if_neg hne]⟩
  simp [Patterns.bestMatch, patterns, hroot, hexact, hsubtree, Patterns.better]

/-- An alias covers itself and what lies below it, and the root covers everything. -/
theorem isSome_bestMatch_iff (h : isValid a) (hpath : Continues path) :
    ((Patterns.urls (patterns a)).bestMatch path).isSome ↔
      a = "/" ∨ path = a ∨ ∃ rest, path = a ++ "/" ++ rest := by
  by_cases hroot : a = "/"
  · subst hroot
    simp [bestMatch_root hpath]
  · rw [or_iff_right hroot]
    constructor
    · intro hsome
      obtain ⟨m, hm⟩ := Option.isSome_iff_exists.1 hsome
      have hlist : patterns a = [.exact a, .subtree a] := if_neg hroot
      rcases Patterns.bestMatch_eq_some hm with ⟨u, hu, hum, _⟩ | ⟨_, hnone⟩
      · simp only [Patterns.urlPatterns, hlist, List.mem_cons, List.not_mem_nil, or_false] at hu
        rcases hu with rfl | rfl
        · rw [UrlPattern.matches?_exact (ne_empty_of_isValid h), Option.ite_none_right_eq_some] at hum
          exact .inl hum.1
        · obtain ⟨rest, rfl, hrest, _⟩ := UrlPattern.matches?_subtree.1 hum
          rcases hrest.eq with rfl | ⟨rest, rfl⟩
          · exact .inl (String.append_empty ..)
          · exact .inr ⟨rest, (String.append_assoc ..).symm⟩
      · simp [Patterns.urlPatterns, hlist] at hnone
    · rintro (rfl | ⟨rest, rfl⟩)
      · simp [bestMatch_self h hroot]
      · simp [bestMatch_below h hroot]

/-- For a valid alias an element can be built whatever is served. It matches the paths below the mount that
the alias covers: for the root all of them, each with the whole path as what follows; for any other alias
the alias itself, with nothing that follows, and what goes on after it with a slash. No name and no pattern
belongs to the elements of two aliases. -/
theorem build_covers (h : isValid a) (owner : Module) (target : AliasTarget)
    (context : Option ContextId) (serviceId : Nat) (n : Counters) :
    ∃ e m, (builder owner a target context serviceId).build n = (.ok e, m) ∧ e.name = a ∧
      (∀ path, Continues path → ((e.matchPath path).isSome ↔
        a = "/" ∨ path = a ∨ ∃ rest, path = a ++ "/" ++ rest)) ∧
      (a = "/" → ∀ path, Continues path → e.matchPath path =
        some ⟨.subtree 0, "", if path = "" then none else some path⟩) ∧
      (a ≠ "/" → e.matchPath a = some ⟨.exact, a, none⟩ ∧ ∀ rest, e.matchPath (a ++ "/" ++ rest) =
        some ⟨.subtree a.utf8ByteSize, a, some ("/" ++ rest)⟩) ∧
      ∀ b, isValid b → b ≠ a → ∀ owner' target' context' serviceId' n' f m',
        (builder owner' b target' context' serviceId').build n' = (.ok f, m') →
        f.name ≠ e.name ∧ ∀ u ∈ f.patterns.urlPatterns, u ∉ e.patterns.urlPatterns := by
  refine ⟨_, _, build_builder h n, rfl, fun path hpath => isSome_bestMatch_iff h hpath, ?_,
    fun hroot => ⟨bestMatch_self h hroot, bestMatch_below h hroot⟩, ?_⟩
  · rintro rfl path hpath
    exact bestMatch_root hpath
  · intro b hb hne owner' target' context' serviceId' n' f m' hf
    rw [build_builder hb] at hf
    obtain rfl := Except.ok.inj (Prod.mk.inj hf).1
    exact ⟨hne, fun u hu hu' => hne (eq_of_mem_patterns hb h hu hu')⟩

/-- An alias with dots and with slashes in a row, and the root. -/
theorem build_covers_dotted :
    let a := "/a.b//c"
    let made (a : String) := (builder ⟨1, "m"⟩ a (.servlet .echo ∅) none 0).build {}
    isValid a ∧ isValid "/" ∧ ∃ e m f m', made a = (.ok e, m) ∧ made "/" = (.ok f, m') ∧
      e.matchPath a = some ⟨.exact, a, none⟩ ∧
      e.matchPath (a ++ "/" ++ "*.d") = some ⟨.subtree 7, a, some "/*.d"⟩ ∧
      ¬ (e.matchPath "/a.b//cd").isSome ∧ f.matchPath "/" = some ⟨.subtree 0, "", some "/"⟩ ∧
      f.name ≠ e.name ∧ ∀ u ∈ f.patterns.urlPatterns, u ∉ e.patterns.urlPatterns := by
  intro a made
  have ha : isValid a := by decide
  have hroot : isValid "/" := by decide
  obtain ⟨e, m, he, _, hcovers, _, hother, hapart⟩ :=
    build_covers ha ⟨1, "m"⟩ (.servlet .echo ∅) none 0 {}
  obtain ⟨f, m', hf, _, _, hwhole, _⟩ := build_covers hroot ⟨1, "m"⟩ (.servlet .echo ∅) none 0 {}
  obtain ⟨hself, hbelow⟩ := hother (by decide)
  refine ⟨ha, hroot, e, m, f, m', he, hf, hself, hbelow "*.d", ?_, hwhole rfl "/" (.inr rfl),
    hapart "/" hroot (by decide) _ _ _ _ _ f m' hf⟩
  rw [hcovers _ (.inr rfl)]
  rintro (h | h | ⟨rest, h⟩)
  · exact absurd h (by decide)
  · exact absurd h (by decide)
  · simpa [a] using congrArg String.toList h

end Aliases

end ServletContainer
