import Mathlib.Data.List.Perm.Basic
import ServletContainer.Proofs.Pattern

/-! Which of several url patterns counts for a path. The match that counts is the one that no other
match beats (`Patterns.bestMatch_eq_some_iff`), which takes the kinds of patterns in turn
(`Patterns.bestMatch_eq_iff`); it is one of the patterns' own, so that the order in which they were
given makes no difference (`Patterns.bestMatch_permuted`). -/
namespace ServletContainer

open Files

namespace MatchKind

variable {k : MatchKind} {n : Nat}

theorem not_beats_exact : ¬ k.Beats .exact := by
  rw [← lt_iff_beats]
  cases k <;> simp [MatchKind.lt, weight]

theorem beats_subtree_iff : k.Beats (.subtree n) ↔ k = .exact ∨ ∃ n', k = .subtree n' ∧ n < n' := by
  rw [← lt_iff_beats]
  cases k <;> simp [MatchKind.lt, weight]
  exact decide_eq_true_iff

theorem beats_extension_iff : k.Beats .extension ↔ k = .exact ∨ ∃ n, k = .subtree n := by
  rw [← lt_iff_beats]
  cases k <;> simp [MatchKind.lt, weight]

theorem beats_fallback_iff : k.Beats .fallback ↔ k ≠ .fallback := by
  rw [← lt_iff_beats]
  cases k <;> simp [MatchKind.lt, weight]

end MatchKind

namespace Patterns

variable {ps : Patterns} {us vs : List UrlPattern} {path name : String} {m : PatternMatch}
  {r : Option PatternMatch}

def HasExact (us : List UrlPattern) (path : String) : Prop :=
  .exact path ∈ us ∨ .exact "" ∈ us ∧ path = "/"

/-- The top of a subtree, which is the path or leads to it segment by segment. -/
def HasTop (us : List UrlPattern) (path top : String) : Prop :=
  .subtree top ∈ us ∧ ∃ rest, path = top ++ rest ∧ Continues rest

def HasExtension (us : List UrlPattern) (path : String) : Prop :=
  ∃ ext, .extension ext ∈ us ∧ UrlPattern.HasExtension path ext

/-- The match of a path that counts: by a pattern that is the path, or else by the subtree with the
longest top, or else by the extension, or else by the fallback. -/
inductive Counts (us : List UrlPattern) (path : String) : Option PatternMatch → Prop
  | exact (h : .exact path ∈ us) (hpath : path ≠ "") : Counts us path (some ⟨.exact, path, none⟩)
  | mount (h : .exact "" ∈ us) (hpath : path = "" ∨ path = "/") :
    Counts us path (some ⟨.exact, "", some "/"⟩)
  | subtree {top rest : String} (hexact : ¬ HasExact us path) (h : .subtree top ∈ us)
    (hpath : path = top ++ rest) (hrest : Continues rest)
    (hlongest : ∀ other, HasTop us path other → other.utf8ByteSize ≤ top.utf8ByteSize) :
    Counts us path
      (some ⟨.subtree top.utf8ByteSize, top, if rest = "" then none else some rest⟩)
  | extension (hexact : ¬ HasExact us path) (hsubtree : ∀ top, ¬ HasTop us path top)
    (h : HasExtension us path) : Counts us path (some ⟨.extension, path, none⟩)
  | fallback (hexact : ¬ HasExact us path) (hsubtree : ∀ top, ¬ HasTop us path top)
    (hextension : ¬ HasExtension us path) (h : .fallback ∈ us) :
    Counts us path (some ⟨.fallback, path, none⟩)
  | none (hexact : ¬ HasExact us path) (hsubtree : ∀ top, ¬ HasTop us path top)
    (hextension : ¬ HasExtension us path) (h : .fallback ∉ us) : Counts us path none

def MatchedAs (us : List UrlPattern) (path : String) (k : MatchKind) : Prop :=
  ∃ u ∈ us, ∃ m, u.Matches path m ∧ m.kind = k

theorem matchedAs_exact : MatchedAs us path .exact ↔ HasExact us path := by
  constructor
  · rintro ⟨u, hu, m, hm, hkind⟩
    cases hm with
    | mount hpath =>
      rcases hpath with rfl | rfl
      · exact .inl hu
      · exact .inr ⟨hu, rfl⟩
    | exact => exact .inl hu
    | _ => cases hkind
  · rintro (h | ⟨h, hpath⟩)
    · by_cases hpath : path = ""
      · subst hpath
        exact ⟨_, h, _, .mount (.inl rfl), rfl⟩
      · exact ⟨_, h, _, .exact hpath, rfl⟩
    · exact ⟨_, h, _, .mount (.inr hpath), rfl⟩

theorem matchedAs_subtree {n : Nat} :
    MatchedAs us path (.subtree n) ↔ ∃ top, HasTop us path top ∧ top.utf8ByteSize = n := by
  constructor
  · rintro ⟨u, hu, m, hm, hkind⟩
    cases hm with
    | subtree hpath hrest => exact ⟨_, ⟨hu, _, hpath, hrest⟩, MatchKind.subtree.inj hkind⟩
    | _ => cases hkind
  · rintro ⟨top, ⟨h, rest, hpath, hrest⟩, rfl⟩
    exact ⟨_, h, _, .subtree hpath hrest, rfl⟩

theorem matchedAs_extension : MatchedAs us path .extension ↔ HasExtension us path := by
  constructor
  · rintro ⟨u, hu, m, hm, hkind⟩
    cases hm with
    | extension h => exact ⟨_, hu, h⟩
    | _ => cases hkind
  · rintro ⟨ext, h, hext⟩
    exact ⟨_, h, _, .extension hext, rfl⟩

theorem not_matchedAs_regex : ¬ MatchedAs us path .regex := by
  rintro ⟨u, _, m, hm, hkind⟩
  cases hm <;> cases hkind

theorem matchedAs_fallback : MatchedAs us path .fallback ↔ .fallback ∈ us := by
  constructor
  · rintro ⟨u, hu, m, hm, hkind⟩
    cases hm with
    | fallback => exact hu
    | _ => cases hkind
  · intro h
    exact ⟨_, h, _, .fallback, rfl⟩

theorem MatchedAs.eq_fallback {k : MatchKind} (hk : MatchedAs us path k) (hexact : ¬ HasExact us path)
    (hsubtree : ∀ top, ¬ HasTop us path top) (hextension : ¬ HasExtension us path) : k = .fallback := by
  cases k with
  | exact => exact absurd (matchedAs_exact.1 hk) hexact
  | subtree n =>
    obtain ⟨top, htop, _⟩ := matchedAs_subtree.1 hk
    exact absurd htop (hsubtree top)
  | extension => exact absurd (matchedAs_extension.1 hk) hextension
  | regex => exact absurd hk not_matchedAs_regex
  | fallback => rfl

/-- A match by one of the patterns, which none of them matches in a better way. -/
def Leads (us : List UrlPattern) (path : String) (m : PatternMatch) : Prop :=
  (∃ u ∈ us, u.Matches path m) ∧ ∀ k, MatchedAs us path k → ¬ k.Beats m.kind

theorem leads_of_bestMatch (h : (urls us).bestMatch path = some m) : Leads us path m := by
  rcases bestMatch_eq_some h with ⟨u, hu, hm, hbest⟩ | ⟨_, hnone⟩
  · refine ⟨⟨u, hu, UrlPattern.matches?_eq_some_iff.1 hm⟩, ?_⟩
    rintro k ⟨v, hv, n, hn, rfl⟩ hbeats
    exact hbest v hv n (UrlPattern.matches?_eq_some_iff.2 hn) hbeats.lt
  · obtain rfl : us = [] := hnone
    cases h

/-- A pattern matches a path in one way at most, and each way to match is that of one pattern. -/
theorem Leads.unique (hread : ∀ u ∈ us, u.IsRead) {n : PatternMatch} (hm : Leads us path m)
    (hn : Leads us path n) : m = n := by
  obtain ⟨⟨u, hu, hum⟩, hmbest⟩ := hm
  obtain ⟨⟨v, hv, hvn⟩, hnbest⟩ := hn
  have hkind : m.kind = n.kind := by
    rcases MatchKind.lt_or_eq_or_lt m.kind n.kind with hlt | heq | hlt
    · exact absurd (MatchKind.lt_iff_beats.1 hlt) (hmbest _ ⟨v, hv, n, hvn, rfl⟩)
    · exact heq
    · exact absurd (MatchKind.lt_iff_beats.1 hlt) (hnbest _ ⟨u, hu, m, hum, rfl⟩)
  obtain rfl := hum.pattern_unique hvn hkind (hread u hu) (hread v hv)
  have hmatch := UrlPattern.matches?_eq_some_iff.2 hum
  exact Option.some.inj (hmatch.symm.trans (UrlPattern.matches?_eq_some_iff.2 hvn))

theorem bestMatch_eq_some_iff (hread : ∀ u ∈ us, u.IsRead) :
    (urls us).bestMatch path = some m ↔ Leads us path m := by
  refine ⟨leads_of_bestMatch, fun hm => ?_⟩
  cases h : (urls us).bestMatch path with
  | none =>
    obtain ⟨u, hu, hum⟩ := hm.1
    cases (bestMatch_eq_none h u hu).symm.trans (UrlPattern.matches?_eq_some_iff.2 hum)
  | some n => rw [(leads_of_bestMatch h).unique hread hm]

theorem bestMatch_eq_of_perm (hread : ∀ u ∈ us, u.IsRead) (h : us.Perm vs) :
    (urls us).bestMatch path = (urls vs).bestMatch path := by
  have hmem (u : UrlPattern) : u ∈ us ↔ u ∈ vs := h.mem_iff
  ext m
  rw [bestMatch_eq_some_iff hread, bestMatch_eq_some_iff fun u hu => hread u ((hmem u).2 hu)]
  simp only [Leads, MatchedAs, hmem]

theorem bestMatch_eq_none_iff :
    (urls us).bestMatch path = none ↔ ∀ k, ¬ MatchedAs us path k := by
  constructor
  · rintro h k ⟨u, hu, m, hm, _⟩
    cases (bestMatch_eq_none h u hu).symm.trans (UrlPattern.matches?_eq_some_iff.2 hm)
  · intro h
    by_contra hsome
    obtain ⟨m, hm⟩ := Option.ne_none_iff_exists'.1 hsome
    obtain ⟨u, hu, hum⟩ := (leads_of_bestMatch hm).1
    exact h m.kind ⟨u, hu, m, hum, rfl⟩

theorem Leads.counts (h : Leads us path m) : Counts us path (some m) := by
  obtain ⟨⟨u, hu, hum⟩, hbest⟩ := h
  cases hum with
  | mount hpath => exact .mount hu hpath
  | exact hpath => exact .exact hu hpath
  | subtree hpath hrest =>
    refine .subtree (fun hexact => ?_) hu hpath hrest fun other hother => ?_
    · exact hbest _ (matchedAs_exact.2 hexact) (.exact _)
    · by_contra hlonger
      exact hbest _ (matchedAs_subtree.2 ⟨other, hother, rfl⟩) (.longer (Nat.lt_of_not_le hlonger))
  | extension hext =>
    refine .extension (fun hexact => ?_) (fun top htop => ?_) ⟨_, hu, hext⟩
    · exact hbest _ (matchedAs_exact.2 hexact) (MatchKind.beats_extension_iff.2 (.inl rfl))
    · exact hbest _ (matchedAs_subtree.2 ⟨top, htop, rfl⟩) (.subtree _)
  | fallback =>
    have hno (k : MatchKind) (hk : k ≠ .fallback) : ¬ MatchedAs us path k :=
      fun hmatched => hbest k hmatched (MatchKind.beats_fallback_iff.2 hk)
    refine .fallback (fun hexact => ?_) (fun top htop => ?_) (fun hextension => ?_) hu
    · exact hno .exact nofun (matchedAs_exact.2 hexact)
    · exact hno (.subtree _) nofun (matchedAs_subtree.2 ⟨top, htop, rfl⟩)
    · exact hno .extension nofun (matchedAs_extension.2 hextension)

theorem Counts.leads (h : Counts us path (some m)) : Leads us path m := by
  cases h with
  | exact h hpath => exact ⟨⟨_, h, .exact hpath⟩, fun _ _ => MatchKind.not_beats_exact⟩
  | mount h hpath => exact ⟨⟨_, h, .mount hpath⟩, fun _ _ => MatchKind.not_beats_exact⟩
  | subtree hexact h hpath hrest hlongest =>
    refine ⟨⟨_, h, .subtree hpath hrest⟩, fun k hk hbeats => ?_⟩
    rcases MatchKind.beats_subtree_iff.1 hbeats with rfl | ⟨n, rfl, hlonger⟩
    · exact hexact (matchedAs_exact.1 hk)
    · obtain ⟨other, hother, rfl⟩ := matchedAs_subtree.1 hk
      exact Nat.not_le_of_lt hlonger (hlongest other hother)
  | extension hexact hsubtree h =>
    obtain ⟨ext, h, hext⟩ := h
    refine ⟨⟨_, h, .extension hext⟩, fun k hk hbeats => ?_⟩
    rcases MatchKind.beats_extension_iff.1 hbeats with rfl | ⟨n, rfl⟩
    · exact hexact (matchedAs_exact.1 hk)
    · obtain ⟨top, htop, _⟩ := matchedAs_subtree.1 hk
      exact hsubtree top htop
  | fallback hexact hsubtree hextension h =>
    refine ⟨⟨_, h, .fallback⟩, fun k hk hbeats => ?_⟩
    exact MatchKind.beats_fallback_iff.1 hbeats (hk.eq_fallback hexact hsubtree hextension)

/-- No pattern matches if none of any kind does. -/
theorem counts_none_iff : Counts us path none ↔ ∀ k, ¬ MatchedAs us path k := by
  constructor
  · intro h k hk
    cases h with
    | none hexact hsubtree hextension h =>
      obtain rfl := hk.eq_fallback hexact hsubtree hextension
      exact h (matchedAs_fallback.1 hk)
  · intro h
    exact .none (fun hexact => h _ (matchedAs_exact.2 hexact))
      (fun top htop => h _ (matchedAs_subtree.2 ⟨top, htop, rfl⟩))
      (fun hextension => h _ (matchedAs_extension.2 hextension))
      fun hfallback => h _ (matchedAs_fallback.2 hfallback)

theorem bestMatch_eq_iff (hread : ∀ u ∈ us, u.IsRead) :
    (urls us).bestMatch path = r ↔ Counts us path r := by
  cases r with
  | none => rw [bestMatch_eq_none_iff, counts_none_iff]
  | some m => exact (bestMatch_eq_some_iff hread).trans ⟨Leads.counts, Counts.leads⟩

/-- Texts that can be read as url patterns can be read in any order. Whatever the order, the match of a
path that counts is that of the pattern that is the path, or else of the longest subtree, or else of the
extension, or else of the fallback, which is read from a slash. -/
theorem bestMatch_permuted {texts texts' : List String} (h : parseUrls name texts = .ok ps)
    (hperm : texts'.Perm texts) :
    (∀ u, u ∈ ps.urlPatterns ↔ ∃ s ∈ texts, UrlPattern.parse s = .ok u) ∧
      (∀ path r, ps.bestMatch path = r ↔ Counts ps.urlPatterns path r) ∧
      ∃ ps', parseUrls name texts' = .ok ps' ∧ ∀ path, ps'.bestMatch path = ps.bestMatch path := by
  obtain ⟨hread, hnodup, hbest⟩ := parseUrls_ok h
  have hisRead := isRead_of_parseUrls h
  refine ⟨fun u => ⟨exists_left_of_forall₂ hread, ?_⟩, fun path r => ?_, ?_⟩
  · rintro ⟨s, hs, hu⟩
    obtain ⟨v, hv, hread⟩ := exists_right_of_forall₂ hread hs
    rwa [Except.ok.inj (hu.symm.trans hread)]
  · rw [hbest, bestMatch_eq_iff hisRead]
  · obtain ⟨us, hread', hus⟩ := List.perm_comp_forall₂ hperm hread
    obtain ⟨ps', h', rfl⟩ := exists_parseUrls hread' (hus.nodup_iff.2 hnodup)
    refine ⟨ps', h', fun path => ?_⟩
    rw [hbest, (parseUrls_ok h').2.2, bestMatch_eq_of_perm hisRead hus.symm]

/-- Patterns of all kinds, read backwards. -/
theorem bestMatch_permuted_reversed :
    let texts := ["", "/", "*.do", "/app/*", "/app/x/*", "/app/x/y"]
    ∃ ps ps', parseUrls "s" texts = .ok ps ∧ parseUrls "s" texts.reverse = .ok ps' ∧
      (∀ path, ps'.bestMatch path = ps.bestMatch path) ∧
      ps.bestMatch "/" = some ⟨.exact, "", some "/"⟩ ∧
      ps.bestMatch "/app/x/y" = some ⟨.exact, "/app/x/y", none⟩ ∧
      ps.bestMatch "/app/x/z.do" = some ⟨.subtree 6, "/app/x", some "/z.do"⟩ ∧
      ps.bestMatch "/apple/z.do" = some ⟨.extension, "/apple/z.do", none⟩ ∧
      ps.bestMatch "/apple.do/z" = some ⟨.fallback, "/apple.do/z", none⟩ := by
  intro texts
  let ps : Patterns := .urls [.exact "", .fallback, .extension "do", .subtree "/app",
    .subtree "/app/x", .exact "/app/x/y"]
  have h : parseUrls "s" texts = .ok ps := rfl
  obtain ⟨_, _, ps', h', hsame⟩ := bestMatch_permuted h (List.reverse_perm texts)
  exact ⟨ps, ps', h, h', hsame, by decide +kernel⟩

end Patterns

end ServletContainer
