import ServletContainer.Proofs.Dispatch.Plan
import ServletContainer.Proofs.Dispatch.Trace
import ServletContainer.Proofs.Pattern.Precedence

/-! The paths that collaborators see. A match takes the path apart without losing any of it
(`Patterns.spelled_bestMatch`), and nobody but the dispatch itself points a request elsewhere
(`Dispatch.pointed_execute`). So the paths of a request, put together again, are the path that was asked
for: for everybody who is called before the target, and for the target that was selected for it
(`Dispatch.execute_spells`). -/
namespace ServletContainer

open Files

variable {path : String} {u : UrlPattern} {m : PatternMatch}

def PatternMatch.spelled (m : PatternMatch) : String := m.servletPath ++ m.pathInfo.getD ""

namespace UrlPattern

theorem Matches.spelled (h : u.Matches path m) :
    m.spelled = if u = .exact "" ∧ path = "" then "/" else path := by
  cases h with
  | mount hpath => rcases hpath with rfl | rfl <;> rfl
  | exact hpath => simp [PatternMatch.spelled, hpath]
  | @subtree top rest hpath =>
    by_cases hrest : rest = "" <;> simp [PatternMatch.spelled, hpath, hrest]
  | extension => simp [PatternMatch.spelled]
  | fallback => simp [PatternMatch.spelled]

theorem Matches.head?_info (h : u.Matches path m) {info : String} (hinfo : m.pathInfo = some info) :
    info.toList.head? = some '/' := by
  cases h with
  | mount => cases hinfo; rfl
  | @subtree _ rest _ hrest =>
    simp only [Option.ite_none_left_eq_some, Option.some.injEq] at hinfo
    obtain ⟨hne, rfl⟩ := hinfo
    exact hrest.resolve_left hne
  | _ => cases hinfo

end UrlPattern

namespace Patterns

variable {ps : Patterns}

theorem eq_mount_of_bestMatch (hmount : .exact "" ∈ ps.urlPatterns)
    (h : ps.bestMatch "" = some m) : m = ⟨.exact, "", some "/"⟩ := by
  rcases bestMatch_eq_some h with ⟨u, hu, hm, hbest⟩ | ⟨_, hnone⟩
  · have hexact : m.kind = .exact := by
      rcases MatchKind.lt_or_eq_or_lt m.kind .exact with hlt | heq | hgt
      · exact absurd hlt (hbest _ hmount ⟨.exact, "", some "/"⟩ rfl)
      · exact heq
      · exact absurd (MatchKind.lt_iff_beats.1 hgt) MatchKind.not_beats_exact
    cases UrlPattern.matches?_eq_some_iff.1 hm with
    | mount => rfl
    | exact hpath => exact absurd rfl hpath
    | _ => cases hexact
  · rw [hnone] at hmount
    cases hmount

theorem spelled_bestMatch (h : ps.bestMatch path = some m) :
    m.spelled = if .exact "" ∈ ps.urlPatterns ∧ path = "" then "/" else path := by
  split
  · rename_i hmount
    obtain ⟨hmount, rfl⟩ := hmount
    rw [eq_mount_of_bestMatch hmount h]
    rfl
  · rename_i hno
    rcases bestMatch_eq_some h with ⟨u, hu, hm, _⟩ | ⟨rfl, _⟩
    · rw [(UrlPattern.matches?_eq_some_iff.1 hm).spelled, if_neg]
      rintro ⟨rfl, hpath⟩
      exact hno ⟨hu, hpath⟩
    · simp [PatternMatch.spelled]

theorem head?_info_bestMatch (h : ps.bestMatch path = some m) {info : String}
    (hinfo : m.pathInfo = some info) : info.toList.head? = some '/' := by
  rcases bestMatch_eq_some h with ⟨u, _, hm, _⟩ | ⟨rfl, _⟩
  · exact (UrlPattern.matches?_eq_some_iff.1 hm).head?_info hinfo
  · cases hinfo

end Patterns

def Request.spelled (q : Request) : String := q.contextPath ++ q.pathInContext

theorem Request.spelled_of_route {q : Request} {uri : Uri} {context servlet : String}
    {info : Option String} (h : q.route = (uri, context, servlet, info)) :
    q.spelled = context ++ (servlet ++ info.getD "") := by
  cases h
  rfl

/-- The path of a request is that of its mount, followed by what is left of it there. -/
theorem Table.path_of_compose {t : Table} {fs : Files} {p : Plan} (h : t.compose fs path = some p) :
    path = p.mount.path.lead ++ p.relative :=
  (ContextPath.below_eq_some_iff.1 (t.below_of_compose h).1).2

namespace Dispatch

/-- A match tells of the whole path, that of the empty pattern for the empty path of a slash, and what
follows the part that chose the element starts with a slash. Whoever is called before the target is handed a
request whose paths make up the path that was asked for, and no action of a script changes them. The target
is handed the paths of its match; they make up the path too if it was selected for it, with one slash more
if it is mapped to the mount itself and nothing was asked for below it. -/
theorem execute_spells (env : Surroundings) (t : Table) (q : Incoming) (given : Pool) :
    (∀ (u : UrlPattern) path m, u.matches? path = some m →
      m.spelled = (if u = .exact "" ∧ path = "" then "/" else path) ∧
        ∀ info, m.pathInfo = some info → info.toList.head? = some '/') ∧
    (∀ (ps : Patterns) path m, ps.bestMatch path = some m →
      m.spelled = (if .exact "" ∈ ps.urlPatterns ∧ path = "" then "/" else path) ∧
        ∀ info, m.pathInfo = some info → info.toList.head? = some '/') ∧
    (∀ number remaining x a,
      (Script.act env number remaining x a).request.spelled = x.request.spelled) ∧
    ∀ p, t.compose env.files q.uri.path = some p →
      ∀ c r, (c, r) ∈ (execute env t q given).2.trace →
        ((∃ id, c = .preprocessor id ∨ c = .filter id) ∨ c = .security →
          r.uri = q.uri ∧ r.spelled = q.uri.path) ∧
        ∀ s m, c = .target → p.target = .servlet s m → r.uri = q.uri ∧
          r.contextPath = p.mount.path.lead ∧ r.servletPath = m.servletPath ∧ r.pathInfo = m.pathInfo ∧
          (p.mount.select p.relative = some (s, m) →
            r.spelled = if .exact "" ∈ s.element.patterns.urlPatterns ∧ p.relative = ""
              then q.uri.path ++ "/" else q.uri.path) := by
  refine ⟨fun u path m h => ?_, fun ps path m h => ?_, fun number remaining x a => ?_,
    fun p hp c r hmem => ?_⟩
  · have hm := UrlPattern.matches?_eq_some_iff.1 h
    exact ⟨hm.spelled, fun _ => hm.head?_info⟩
  · exact ⟨Patterns.spelled_bestMatch h, fun _ => Patterns.head?_info_bestMatch h⟩
  · exact (Request.spelled_of_route ((steady_route env).act number remaining x a)).trans rfl
  · have hpath : q.uri.path = p.mount.path.lead ++ p.relative := t.path_of_compose hp
    have hpointed := pointed_execute env hp given (c, r) hmem
    constructor
    · intro hc
      cases hpointed with
      | before _ hroute =>
        refine ⟨congrArg Prod.fst hroute, ?_⟩
        rw [Request.spelled_of_route hroute, hpath]
        exact congrArg _ (String.append_empty ..)
      | _ => simp at hc
    · rintro s m rfl htarget
      cases hpointed with
      | before hc => exact absurd rfl hc
      | target hroute =>
        have hroute := hroute s m htarget
        simp only [Request.route, Prod.mk.injEq] at hroute
        refine ⟨hroute.1, hroute.2.1, hroute.2.2.1, hroute.2.2.2, fun hselect => ?_⟩
        have hspelled : r.spelled = p.mount.path.lead ++ (m.servletPath ++ m.pathInfo.getD "") := by
          rw [Request.spelled, Request.pathInContext, hroute.2.1, hroute.2.2.1, hroute.2.2.2]
        have hm : m.spelled = _ := Patterns.spelled_bestMatch (Mount.select_eq_some hselect).2
        rw [PatternMatch.spelled] at hm
        rw [hspelled, hm, hpath]
        split
        · rename_i hmount
          rw [hmount.2, String.append_empty]
        · rfl

/-- A servlet that is mapped to the mount itself sees a slash there, and those before it see none. -/
theorem execute_spells_mount :
    let c : LogicalContext := { id := "c", path := ⟨"/c"⟩, order := 0 }
    let s : ActiveServlet := ⟨{ Element.catchAll 1 ["c"] with patterns := .urls [.exact ""] }, some c⟩
    let filter (id : ElementId) : Element :=
      { Element.catchAll id ["c"] with
        details := .filter (.given (.script [.tell .paths, .proceed])) [] (id = 2) }
    let t : Table := ⟨[⟨⟨"/c"⟩, [c], [s], [filter 3], [], []⟩], [filter 2]⟩
    let env : Surroundings := ⟨⟨"", ∅⟩, fun _ => ""⟩
    let p := Plan.inMount env.files t ⟨⟨"/c"⟩, [c], [s], [filter 3], [], []⟩ ""
    let trace := (execute env t { uri := ⟨"/c", none⟩ } {}).2.trace
    t.compose env.files "/c" = some p ∧ trace.map (fun e => (e.1, e.2.spelled)) =
      [(.preprocessor 2, "/c"), (.security, "/c"), (.filter 3, "/c"), (.target, "/c/"),
        (.finish, "/c/")] ∧
      ∀ r, (.filter 3, r) ∈ trace → r.spelled = "/c" := by
  intro c s filter t env p trace
  have hp : t.compose env.files "/c" = some p := by decide +kernel
  have hspells := (execute_spells env t { uri := ⟨"/c", none⟩ } {}).2.2.2 p hp
  refine ⟨hp, by decide +kernel, fun r hr => ?_⟩
  exact ((hspells _ r hr).1 (.inl ⟨3, .inr rfl⟩)).2

end Dispatch

end ServletContainer
