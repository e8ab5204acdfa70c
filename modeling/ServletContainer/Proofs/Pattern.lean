import ServletContainer.Proofs.Ordered
import ServletContainer.Proofs.Path
import ServletContainer.Proofs.Pattern.Text

/-! What matches have precedence. Exact matches come first, then longer subtrees, shorter ones,
extensions, regular expressions and the fallback (`MatchKind.lt_iff_beats`). Two url patterns that were
read from texts never match one path in the same way (`UrlPattern.eq_of_matches?`), so that of the url
patterns that match a path one is the most specific. -/
namespace ServletContainer

open Files Text

namespace MatchKind

variable {a b c : MatchKind}

/-- An exact match counts before one by a subtree, of which the longer counts; then come extensions,
regular expressions and the fallback. -/
inductive Beats : MatchKind → MatchKind → Prop
  | exact (n : Nat) : Beats .exact (.subtree n)
  | longer {m n : Nat} : m < n → Beats (.subtree n) (.subtree m)
  | subtree (n : Nat) : Beats (.subtree n) .extension
  | extension : Beats .extension .regex
  | regex : Beats .regex .fallback
  | trans {a b c : MatchKind} : Beats a b → Beats b c → Beats a c

theorem lt_irrefl (a : MatchKind) : ¬ a.lt a := by
  simp [lt]

theorem lt_trans (hab : a.lt b) (hbc : b.lt c) : a.lt c := by
  simp only [lt, Bool.or_eq_true, Bool.and_eq_true, decide_eq_true_eq, beq_iff_eq] at *
  omega

theorem not_lt_trans (hab : ¬ a.lt b) (hbc : ¬ b.lt c) : ¬ a.lt c := by
  simp only [lt, Bool.or_eq_true, Bool.and_eq_true, decide_eq_true_eq, beq_iff_eq] at *
  omega

theorem lt_asymm (h : a.lt b) : ¬ b.lt a := fun hba => lt_irrefl a (lt_trans h hba)

theorem weight_injective (h : a.weight = b.weight) : a = b := by
  cases a <;> cases b <;> simp_all [weight]

theorem lt_or_eq_or_lt (a b : MatchKind) : a.lt b ∨ a = b ∨ b.lt a := by
  have htotal : a.lt b ∨ a.weight = b.weight ∨ b.lt a := by
    rw [Prod.ext_iff]
    simp only [lt, Bool.or_eq_true, Bool.and_eq_true, decide_eq_true_eq, beq_iff_eq]
    omega
  exact htotal.imp_right (.imp_left weight_injective)

theorem Beats.lt (h : a.Beats b) : b.lt a := by
  induction h with
  | trans _ _ hab hbc => exact lt_trans hbc hab
  | longer h => simp [MatchKind.lt, weight, h]
  | _ => rfl

theorem lt_iff_beats : a.lt b ↔ b.Beats a := by
  refine ⟨fun h => ?_, Beats.lt⟩
  have hextension : Beats .extension .fallback := .trans .extension .regex
  have hsubtree (n : Nat) : Beats (.subtree n) .regex := .trans (.subtree n) .extension
  cases b with
  | fallback => cases a <;> simp [MatchKind.lt, weight] at h
  | regex => cases a <;> simp [MatchKind.lt, weight] at h; exact .regex
  | extension =>
    cases a with
    | fallback => exact hextension
    | regex => exact .extension
    | _ => simp [MatchKind.lt, weight] at h
  | subtree n =>
    cases a with
    | fallback => exact (hsubtree n).trans .regex
    | regex => exact hsubtree n
    | extension => exact .subtree n
    | subtree m =>
      simp only [MatchKind.lt, weight, Nat.lt_irrefl, decide_false, Bool.false_or, beq_self_eq_true,
        Bool.true_and] at h
      have hlength : m < n := of_decide_eq_true h
      exact .longer hlength
    | exact => simp [MatchKind.lt, weight] at h
  | exact =>
    cases a with
    | fallback => exact ((Beats.exact 0).trans (hsubtree 0)).trans .regex
    | regex => exact (Beats.exact 0).trans (hsubtree 0)
    | extension => exact (Beats.exact 0).trans (.subtree 0)
    | subtree m => exact .exact m
    | exact => simp [MatchKind.lt, weight] at h

end MatchKind

namespace UrlPattern

variable {u v : UrlPattern} {path s : String} {m n : PatternMatch}

def kind : UrlPattern → MatchKind
  | .exact _ => .exact
  | .subtree top => .subtree top.utf8ByteSize
  | .extension _ => .extension
  | .fallback => .fallback

/-- The pattern was read from a text. -/
def IsRead (u : UrlPattern) : Prop := ∃ s, UrlPattern.parse s = .ok u

theorem IsRead.ne_slash (h : u.IsRead) : u ≠ .exact "/" := by
  obtain ⟨s, h⟩ := h
  exact (parse_eq_ok_iff.1 h).2.ne_slash

def HasExtension (path ext : String) : Prop :=
  (∃ before, path = before ++ ("." ++ ext)) ∧ '.' ∉ ext.toList ∧ '/' ∉ ext.toList

/-- How a pattern matches a path, told from the texts alone. -/
inductive Matches (path : String) : UrlPattern → PatternMatch → Prop
  | mount (h : path = "" ∨ path = "/") : Matches path (.exact "") ⟨.exact, "", some "/"⟩
  | exact (h : path ≠ "") : Matches path (.exact path) ⟨.exact, path, none⟩
  | subtree {top rest : String} (h : path = top ++ rest) (hrest : Continues rest) :
    Matches path (.subtree top)
      ⟨.subtree top.utf8ByteSize, top, if rest = "" then none else some rest⟩
  | extension {ext : String} (h : HasExtension path ext) :
    Matches path (.extension ext) ⟨.extension, path, none⟩
  | fallback : Matches path .fallback ⟨.fallback, path, none⟩

theorem matches?_exact {e : String} (he : e ≠ "") :
    (exact e).matches? path = if path = e then some ⟨.exact, e, none⟩ else none := by
  unfold matches?
  split
  · rename_i hempty
    exact absurd (UrlPattern.exact.inj hempty) he
  · rename_i hexact
    cases UrlPattern.exact.inj hexact
    rfl
  all_goals
    rename_i hother
    exact UrlPattern.noConfusion hother

theorem hasExtension_iff {ext : String} : HasExtension path ext ↔
    ∃ before, splitLast '.' (afterLast '/' path.toList) = some (before, ext.toList) := by
  rw [splitLast_afterLast (by decide), exists_and_right, HasExtension]
  refine and_congr_left fun _ => ⟨fun ⟨before, h⟩ => ⟨before.toList, by simp [h]⟩, fun ⟨before, h⟩ => ?_⟩
  exact ⟨String.ofList before, String.toList_injective (by simp [h])⟩

theorem matches?_extension {ext : String} : (extension ext).matches? path = some m ↔
    HasExtension path ext ∧ m = ⟨.extension, path, none⟩ := by
  rw [hasExtension_iff]
  simp only [matches?]
  split
  · rename_i before found hsplit
    by_cases hfound : found = ext.toList
    · simp [hsplit, hfound, eq_comm]
    · simp [hsplit, hfound]
  · rename_i hsplit
    simp [hsplit]

theorem matches?_subtree {top : String} : (subtree top).matches? path = some m ↔
    ∃ rest, path = top ++ rest ∧ Continues rest ∧
      m = ⟨.subtree top.utf8ByteSize, top, if rest = "" then none else some rest⟩ := by
  have hcut (rest : List Char) : cutStart top.toList path.toList = some rest ↔
      path = top ++ String.ofList rest := by
    rw [cutStart_eq_some_iff, ← String.toList_inj, String.toList_append, String.toList_ofList]
  simp only [matches?]
  constructor
  · intro h
    split at h
    · cases h
    · rename_i hrest
      cases h
      exact ⟨"", (hcut []).1 hrest, .inl rfl, rfl⟩
    · rename_i c rest hrest
      split at h
      · rename_i hc
        cases h
        refine ⟨String.ofList (c :: rest), (hcut _).1 hrest, .inr (by simp [hc]), ?_⟩
        simp
      · cases h
  · rintro ⟨rest, hpath, hrest, rfl⟩
    rcases hrest.eq with rfl | ⟨rest, rfl⟩
    · have hnil := (hcut []).2 hpath
      simp [hnil]
    · have hcons := (hcut ('/' :: rest.toList)).2 (by simpa [String.ofList_cons] using hpath)
      simp [hcons]

theorem matches?_eq_some_iff : u.matches? path = some m ↔ u.Matches path m := by
  constructor
  · intro h
    cases u with
    | exact e =>
      by_cases he : e = ""
      · subst he
        simp only [matches?, Option.ite_none_right_eq_some, Option.some.injEq] at h
        obtain ⟨hpath, rfl⟩ := h
        exact .mount hpath
      · simp only [matches?_exact he, Option.ite_none_right_eq_some, Option.some.injEq] at h
        obtain ⟨rfl, rfl⟩ := h
        exact .exact he
    | subtree top =>
      obtain ⟨rest, hpath, hrest, rfl⟩ := matches?_subtree.1 h
      exact .subtree hpath hrest
    | extension ext =>
      obtain ⟨hext, rfl⟩ := matches?_extension.1 h
      exact .extension hext
    | fallback =>
      cases h
      exact .fallback
  · intro h
    cases h with
    | mount h => exact if_pos h
    | exact h => rw [matches?_exact h, if_pos rfl]
    | subtree h hrest => exact matches?_subtree.2 ⟨_, h, hrest, rfl⟩
    | extension h => exact matches?_extension.2 ⟨h, rfl⟩
    | fallback => rfl

theorem HasExtension.unique {ext ext' : String} (h : HasExtension path ext)
    (h' : HasExtension path ext') : ext = ext' := by
  obtain ⟨_, hext⟩ := hasExtension_iff.1 h
  obtain ⟨_, hext'⟩ := hasExtension_iff.1 h'
  exact String.toList_injective (Prod.mk.inj (Option.some.inj (hext.symm.trans hext'))).2

theorem Matches.kind_eq (h : u.Matches path m) : m.kind = u.kind := by
  cases h <;> rfl

theorem Matches.pattern_unique (hu : u.Matches path m) (hv : v.Matches path n)
    (hkind : m.kind = n.kind) (hur : u.IsRead) (hvr : v.IsRead) : u = v := by
  rw [hu.kind_eq, hv.kind_eq] at hkind
  cases hu with
  | mount hpath =>
    cases hv with
    | mount => rfl
    | exact hne =>
      -- the path is a slash, and no pattern is read as that alone
      rcases hpath with rfl | rfl
      · exact absurd rfl hne
      · exact absurd rfl hvr.ne_slash
    | _ => cases hkind
  | exact hne =>
    cases hv with
    | mount hpath =>
      rcases hpath with rfl | rfl
      · exact absurd rfl hne
      · exact absurd rfl hur.ne_slash
    | exact => rfl
    | _ => cases hkind
  | subtree hpath =>
    cases hv with
    | subtree hpath' =>
      exact congrArg UrlPattern.subtree
        (eq_of_append_eq_append (hpath.symm.trans hpath') (MatchKind.subtree.inj hkind))
    | _ => cases hkind
  | extension hext =>
    cases hv with
    | extension hext' => exact congrArg UrlPattern.extension (hext.unique hext')
    | _ => cases hkind
  | fallback =>
    cases hv with
    | fallback => rfl
    | _ => cases hkind

theorem eq_of_matches? (hu : u.matches? path = some m) (hv : v.matches? path = some n)
    (hkind : m.kind = n.kind) (hur : u.IsRead) (hvr : v.IsRead) : u = v :=
  (matches?_eq_some_iff.1 hu).pattern_unique (matches?_eq_some_iff.1 hv) hkind hur hvr

end UrlPattern

namespace Patterns

variable {ps : Patterns} {us done : List UrlPattern} {path name : String} {m : PatternMatch}

theorem readUrls_eq_ok_iff {texts : List String} (hdone : done.Nodup) :
    readUrls name done texts = .ok us ↔
      ∃ ps, List.Forall₂ (fun s u => UrlPattern.parse s = .ok u) texts ps ∧ us = done ++ ps ∧
        us.Nodup := by
  induction texts generalizing done with
  | nil =>
    simp only [readUrls, Except.ok.injEq, List.forall₂_nil_left_iff, exists_eq_left, List.append_nil]
    exact ⟨fun h => ⟨h.symm, h ▸ hdone⟩, fun h => h.1.symm⟩
  | cons s texts ih =>
    simp only [readUrls, List.forall₂_cons_left_iff]
    cases hs : UrlPattern.parse s with
    | error _ => simp
    | ok p =>
      by_cases hp : p ∈ done
      · simp only [List.contains_iff_mem, hp, if_true, reduceCtorEq, false_iff]
        rintro ⟨_, ⟨_, ps, hread, _, rfl⟩, rfl, hnodup⟩
        cases hread
        exact (List.nodup_append.1 hnodup).2.2 p hp p List.mem_cons_self rfl
      · simp only [List.contains_iff_mem, hp, if_false]
        rw [ih (List.nodup_append.2 ⟨hdone, List.nodup_singleton p, by grind⟩)]
        constructor
        · rintro ⟨ps, hps, rfl, hnodup⟩
          exact ⟨p :: ps, ⟨p, ps, rfl, hps, rfl⟩, by simp, hnodup⟩
        · rintro ⟨_, ⟨_, ps, hread, hps, rfl⟩, rfl, hnodup⟩
          cases hread
          exact ⟨ps, hps, by simp, hnodup⟩

theorem parseUrls_ok {texts : List String} (h : parseUrls name texts = .ok ps) :
    List.Forall₂ (fun s u => UrlPattern.parse s = .ok u) texts ps.urlPatterns ∧
      ps.urlPatterns.Nodup ∧ ∀ path, ps.bestMatch path = (urls ps.urlPatterns).bestMatch path := by
  unfold parseUrls at h
  split at h
  · cases h
  · rename_i hus
    cases h
    obtain ⟨us, hus, hnil, _⟩ := (readUrls_eq_ok_iff List.nodup_nil).1 hus
    obtain rfl : us = [] := hnil.symm
    exact ⟨hus, List.nodup_nil, fun _ => rfl⟩
  · rename_i hus
    cases h
    obtain ⟨us, hus, rfl, hnodup⟩ := (readUrls_eq_ok_iff List.nodup_nil).1 hus
    exact ⟨hus, hnodup, fun _ => rfl⟩

theorem exists_parseUrls {texts : List String}
    (h : List.Forall₂ (fun s u => UrlPattern.parse s = .ok u) texts us) (hnodup : us.Nodup) :
    ∃ ps, parseUrls name texts = .ok ps ∧ ps.urlPatterns = us := by
  have hus : readUrls name [] texts = .ok us :=
    (readUrls_eq_ok_iff List.nodup_nil).2 ⟨us, h, rfl, hnodup⟩
  unfold parseUrls
  rw [hus]
  cases us with
  | nil => exact ⟨.unmapped, rfl, rfl⟩
  | cons u us => exact ⟨.urls (u :: us), rfl, rfl⟩

theorem isRead_of_parseUrls {texts : List String} (h : parseUrls name texts = .ok ps) :
    ∀ u ∈ ps.urlPatterns, u.IsRead := by
  intro u hu
  obtain ⟨hread, _⟩ := parseUrls_ok h
  obtain ⟨s, _, hs⟩ := exists_left_of_forall₂ hread hu
  exact ⟨s, hs⟩

theorem urlPatterns_of_parseRegexes {texts : List String} (h : parseRegexes name texts = .ok ps) :
    ps.urlPatterns = [] := by
  unfold parseRegexes at h
  split at h <;> cases h <;> rfl

theorem better_eq_keepBest : better = keepBest fun b m => !m.kind.lt b.kind := by
  funext best m
  cases best with
  | none => rfl
  | some b => cases h : m.kind.lt b.kind <;> simp [better, keepBest, h]

theorem bestMatch_urls : (urls us).bestMatch path =
    (us.filterMap (·.matches? path)).foldl (keepBest fun b m => !m.kind.lt b.kind) none := by
  rw [bestMatch, better_eq_keepBest]

/-- The match that counts is one of a url pattern, and none of them matches in a better way, or it is
one by a regular expression, and there are no url patterns. -/
theorem bestMatch_eq_some (h : ps.bestMatch path = some m) :
    (∃ u ∈ ps.urlPatterns, u.matches? path = some m ∧
      ∀ v ∈ ps.urlPatterns, ∀ n, v.matches? path = some n → ¬ m.kind.lt n.kind) ∨
    m = ⟨.regex, path, none⟩ ∧ ps.urlPatterns = [] := by
  cases ps with
  | unmapped => cases h
  | regexes rs =>
    simp only [bestMatch] at h
    split at h <;> cases h
    exact .inr ⟨rfl, rfl⟩
  | urls us =>
    rw [bestMatch_urls] at h
    obtain ⟨u, hu, hm⟩ := List.mem_filterMap.1 (mem_of_foldl_keepBest h)
    refine .inl ⟨u, hu, hm, fun v hv n hn => ?_⟩
    have hworse := worse_of_foldl_keepBest h
      (fun a b c hab hbc => by
        simp only [Bool.not_eq_true', ← Bool.not_eq_true] at *
        exact MatchKind.not_lt_trans hbc hab)
      (fun a b c hab hbc => by
        simp only [Bool.not_eq_true', Bool.not_eq_false] at *
        exact MatchKind.lt_trans hbc hab)
      (List.mem_filterMap.2 ⟨v, hv, hn⟩)
    rcases hworse with rfl | hlt | hlt
    · exact MatchKind.lt_irrefl _
    · simpa using hlt
    · exact MatchKind.lt_asymm (by simpa using hlt)

theorem bestMatch_eq_none (h : ps.bestMatch path = none) :
    ∀ u ∈ ps.urlPatterns, u.matches? path = none := by
  cases ps with
  | urls us =>
    rw [bestMatch_urls, foldl_keepBest_eq_none, List.filterMap_eq_nil_iff] at h
    exact h
  | _ => exact fun u hu => absurd hu List.not_mem_nil

end Patterns

end ServletContainer
