import ServletContainer.Proofs.Dispatch.Rejection
import ServletContainer.Proofs.Server.Answers

/-! Requests that the security of a server turns away. The helper's own status is the one of the answer
only if it is a client's error, and 403 is if the helper leaves the status alone; any other status is lost
(`run_rejected_status_iff`). -/
namespace ServletContainer

theorem Response.status_sendRedirect (r : Response) (location : String) :
    (r.sendRedirect location).status = 302 := by
  unfold sendRedirect
  split <;> rfl

namespace Dispatch

/-- The helper has the last word on the status: it is the one that the helper has set, or else 403. -/
def LastWord (left : Response) (status : Nat) : Prop :=
  (left = {} → status = 403) ∧ (left.status ≠ 200 → status = left.status)

theorem lastWord_rejection_iff {left : Response} : LastWord left (rejection left).status ↔
    left.status = 200 ∨ 400 ≤ left.status ∧ left.status ≤ 499 := by
  unfold LastWord rejection
  split
  · rename_i hkept
    refine iff_of_true ⟨?_, fun _ => rfl⟩ (.inr hkept)
    rintro rfl
    exact absurd hkept.1 (by decide)
  · rename_i hlost
    rw [or_iff_left hlost]
    refine ⟨fun h => ?_, fun h => ⟨fun _ => rfl, fun hne => absurd h hne⟩⟩
    by_contra hne
    have hstatus : 403 = left.status := h.2 hne
    omega

end Dispatch

open Dispatch

variable (config : ServerConfig) (engine : Engine) (pool : Pool)

/-- A request that applies to something and that all preprocessors only pass on reaches security with a
response that is still blank. If security turns it away and can be finished, the status of the answer is
the one that the helper has left, if that is a client's error, and else 403, whatever error page is
served; the request fails only if the servlet of such a page does. So the helper has the last word if and
only if it has left the status alone or has set that of a client's error. If security cannot be finished,
the status of an answer is that of a failure. -/
theorem run_rejected_status_iff (steps : List Server.Step) (env : Surroundings) (q : Incoming)
    (given : Pool) :
    let t := ((Server.new config engine pool).run steps).table
    let answer := execute env t q given
    ∀ p pre filters pool₁ pool₂, t.compose env.files q.uri.path = some p → p.isEmpty = false →
      given.chain .preprocessor p.preprocessors = (.ok pre, pool₁) →
      pool₁.chain .filter p.filters = (.ok filters, pool₂) →
      (∀ f ∈ pre, Filter.PassesOn env f.2) →
      ∃ c y, p.view = some c ∧ arrival env p (received q given) = some y ∧ y.response = {} ∧
        ∀ z, c.helper.handleSecurity env (y.called .security) = (.ok false, z) →
          let status := if 400 ≤ z.response.status ∧ z.response.status ≤ 499 then z.response.status
            else 403
          (c.helper.settles →
            (answer.1 = .ok () ∨ ∃ s m f x x', errorPage p none status = some (s, m) ∧
              invoke env s x = (.error f, x') ∧ answer.1 = .error f.reported) ∧
            (answer.1 = .ok () → answer.2.response.status = status ∧
              (LastWord z.response answer.2.response.status ↔ z.response.status = 200 ∨
                400 ≤ z.response.status ∧ z.response.status ≤ 499))) ∧
          (c.helper.settles = false → answer.1 = .ok () → answer.2.response.status = 500) := by
  intro t answer p pre filters pool₁ pool₂ hp hne hpre hfilters hpass
  obtain ⟨c, _, hview, _⟩ := run_plan_view config engine pool steps hp hne
  obtain ⟨y, harrival, hresponse, hrejected⟩ :=
    runPlan_rejected env (x := received q given) hpre hfilters hpass hne hview
  refine ⟨c, y, hview, harrival, hresponse, fun z hz => ?_⟩
  obtain ⟨failure, w, hanswered, hfailure, hleft⟩ := hrejected z hz
  have hanswer : answer = runPlan env p (received q given) := by
    simp only [answer, execute, hp]
    rfl
  rw [← hanswer] at hanswered
  intro status
  have hstatus : (rejection z.response).status = status := by
    simp only [rejection, status]
    split <;> rfl
  refine ⟨fun hsettles => ?_, fun hsettles hok => ?_⟩
  · have hnone : failure = none := by simpa [hsettles] using hfailure
    subst hnone
    have hw : w.response.status = status := by rw [hleft hsettles, hstatus]
    refine ⟨?_, fun hok => ?_⟩
    · refine hanswered.ok_or_broken.imp_right ?_
      rintro ⟨s, m, f, hpage, hinvoke, herror⟩
      exact ⟨s, m, f, _, _, hw ▸ hpage, hinvoke, herror⟩
    · have hfinal : answer.2.response.status = status := (hanswered.status_eq hok).trans hw
      refine ⟨hfinal, ?_⟩
      rw [hfinal, ← hstatus]
      exact lastWord_rejection_iff
  · rw [hanswered.status_eq hok, if_pos (by simp [hfailure, hsettles])]

/-- A helper that asks for credentials: the error page for its status is served under this status. -/
theorem run_rejected_status_iff_kept :
    let c : LogicalContext := { id := "c", path := ⟨"/c"⟩, order := 0,
                                helper := .scripted false [.status 401] [] }
    let page : Element := { Element.catchAll 2 ["c"] with
                            details := .errorPage [.clientErrors] "/login" }
    let steps : List Server.Step := [.start, .submit ⟨"close", [.addContext c,
      .addElement (.catchAll 1 ["c"]), .addElement page,
      .addElement (.filterAll 3 "log" .accessLog true)]⟩]
    let t := ((Server.new {} .idle {}).run steps).table
    let env : Surroundings := ⟨⟨"", ∅⟩, fun _ => ""⟩
    let q : Incoming := { uri := ⟨"/c/any", none⟩ }
    let answer := execute env t q {}
    answer.1 = .ok () ∧ .errorPage 1 ∈ answer.2.calls ∧ answer.2.response.status = 401 ∧
      ∃ z : Exchange, z.response.status = 401 ∧ LastWord z.response answer.2.response.status := by
  intro c page steps t env q answer
  let preOf (p : Plan) := ({} : Pool).chain .preprocessor p.preprocessors
  have hsome : (t.compose env.files q.uri.path).isSome := by decide +kernel
  have hfound : (t.compose env.files q.uri.path).all fun p => !p.isEmpty && p.view = some c &&
      (preOf p).1.toBool && ((preOf p).2.chain .filter p.filters).1.toBool := by decide +kernel
  have hlogs : (t.compose env.files q.uri.path).all fun p =>
      (preOf p).1.toOption.all (·.all (·.2.behaviour = .accessLog)) := by decide +kernel
  have hanswered : answer.1.toBool := by decide +kernel
  obtain ⟨p, hp⟩ := Option.isSome_iff_exists.1 hsome
  obtain ⟨u, hu⟩ := exists_of_toBool hanswered
  simp only [hp, Option.all_some, Bool.and_eq_true, Bool.not_eq_true', decide_eq_true_eq] at hfound hlogs
  obtain ⟨⟨⟨hne, hview⟩, hpre⟩, hfilters⟩ := hfound
  obtain ⟨pre, hpre⟩ := exists_of_toBool hpre
  obtain ⟨filters, hfilters⟩ := exists_of_toBool hfilters
  have hpass : ∀ f ∈ pre, Filter.PassesOn env f.2 := by
    rw [hpre] at hlogs
    exact fun f hf => Filter.passesOn_accessLog env (by simpa using List.all_eq_true.1 hlogs f hf)
  obtain ⟨c', y, hview', _, _, hrejected⟩ :=
    run_rejected_status_iff {} .idle {} steps env q {} p pre filters _ _ hp hne hpre hfilters hpass
  obtain rfl : c = c' := Option.some.inj (hview.symm.trans hview')
  have hok : answer.1 = .ok () := congrArg Prod.fst hu
  let z := (y.called .security).setResponse fun r => { r with status := 401 }
  have hz : c.helper.handleSecurity env (y.called .security) = (.ok false, z) := rfl
  have hkept : 400 ≤ z.response.status ∧ z.response.status ≤ 499 :=
    ⟨Nat.le_of_ble_eq_true rfl, Nat.le_of_ble_eq_true rfl⟩
  have hpage : .errorPage 1 ∈ answer.2.calls := by decide +kernel
  obtain ⟨hstatus, hlast⟩ := ((hrejected z hz).1 rfl).2 hok
  have hlast := hlast.2 (.inr hkept)
  rw [if_pos hkept] at hstatus
  rw [hstatus] at hlast
  have hfinal : answer.2.response.status = 401 := by
    rw [hstatus]
    rfl
  refine ⟨hok, hpage, hfinal, z, rfl, ?_⟩
  rw [hfinal]
  exact hlast

/-- A helper that sends the request to a login page: the redirection is lost. -/
theorem run_rejected_redirected :
    let c : LogicalContext := { id := "c", path := ⟨"/c"⟩, order := 0,
                                helper := .scripted false [.redirect "/login"] [] }
    let steps : List Server.Step := [.start, .submit ⟨"close", [.addContext c,
      .addElement (.catchAll 1 ["c"])]⟩]
    let t := ((Server.new {} .idle {}).run steps).table
    let env : Surroundings := ⟨⟨"", ∅⟩, fun _ => ""⟩
    let q : Incoming := { uri := ⟨"/c/any", none⟩ }
    let answer := execute env t q {}
    ∃ p y z, t.compose env.files q.uri.path = some p ∧ p.isEmpty = false ∧ p.preprocessors = [] ∧
      p.view = some c ∧ arrival env p (received q {}) = some y ∧
      c.helper.handleSecurity env (y.called .security) = (.ok false, z) ∧ z.response.status = 302 ∧
      answer.1.toBool ∧ answer.2.response.status = 403 ∧
      ¬ LastWord z.response answer.2.response.status := by
  intro c steps t env q answer
  have hsome : (t.compose env.files q.uri.path).isSome := by decide +kernel
  have hall : (t.compose env.files q.uri.path).all fun p =>
      !p.isEmpty && p.preprocessors = [] && p.filters = [] && p.view = some c := by decide +kernel
  have hstatus : answer.2.response.status = 403 := by decide +kernel
  obtain ⟨p, hp⟩ := Option.isSome_iff_exists.1 hsome
  simp only [hp, Option.all_some, Bool.and_eq_true, Bool.not_eq_true', decide_eq_true_eq] at hall
  obtain ⟨⟨⟨hne, hnopre⟩, hnofilters⟩, hview⟩ := hall
  have harrival : arrival env p (received q {}) = some (entry p (received q {}) {}) := by
    simp only [arrival, hnopre, hnofilters, Pool.chain]
    rfl
  let y := (entry p (received q {}) {}).called .security
  let z := y.setResponse (·.sendRedirect "/login")
  have hz : z.response.status = 302 := Response.status_sendRedirect ..
  refine ⟨p, _, z, hp, hne, hnopre, hview, harrival, rfl, hz, by decide +kernel, hstatus, ?_⟩
  rintro ⟨_, hlast⟩
  rw [hz, hstatus] at hlast
  exact absurd (hlast (by decide)) (by decide)

end ServletContainer
