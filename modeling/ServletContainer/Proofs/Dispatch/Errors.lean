import ServletContainer.Proofs.Dispatch.Calls
import ServletContainer.Proofs.Dispatch.Plan

/-! How errors are answered. A request ails if its chain failed or left an error without a body
(`Dispatch.Ails`). Then its mount may have a page for the error: what the chain has written is dropped,
the servlet of the page writes instead of it, and only the status is not for the servlet to say
(`Dispatch.execute_forwards`). -/
namespace ServletContainer

def Fault.reported : Fault → DispatchError
  | .failed e => .servlet e
  | .panicked m => .panic m

def ServletError.reported (e : ServletError) : DispatchError :=
  if e.kind = some "panic" then .panic e.message else .servlet e

theorem ServletError.message_reported (e : ServletError) :
    ∃ what, e.reported.message = what ++ e.message := by
  unfold reported
  split
  · exact ⟨"collaborator panic: ", rfl⟩
  · exact ⟨"servlet error: ", rfl⟩

variable {env : Surroundings}

namespace Dispatch

variable {p : Plan} {failure : Option ServletError} {status : Nat} {x y : Exchange}
  {s : ActiveServlet} {m : PatternMatch} {page : ActiveServlet × PatternMatch}

/-- What asks for an error page with this status: a failure, or an error that came without a body. -/
inductive Ails : Option ServletError → Response → Nat → Prop
  | failed (e : ServletError) (r : Response) : Ails (some e) r 500
  | error {r : Response} (h : 400 ≤ r.status) (hbody : r.body = []) : Ails none r r.status

theorem errorStatus_eq_some_iff {r : Response} :
    errorStatus failure r = some status ↔ Ails failure r status := by
  constructor
  · intro h
    cases failure with
    | some e =>
      cases h
      exact .failed e r
    | none =>
      obtain ⟨⟨hstatus, hbody⟩, heq⟩ := Option.ite_none_right_eq_some.1 h
      cases heq
      exact .error hstatus hbody
  · intro h
    cases h with
    | failed => rfl
    | error hstatus hbody => exact if_pos ⟨hstatus, hbody⟩

theorem errorStatus_eq_none_iff {r : Response} :
    errorStatus failure r = none ↔ ∀ status, ¬ Ails failure r status := by
  simp only [← errorStatus_eq_some_iff, Option.eq_none_iff_forall_ne_some, ne_eq]

/-- The exchange that the servlet of an error page is handed: the request is pointed to the page and says
what happened, and the response has the status of the error and no body. -/
def forwarded (p : Plan) (failure : Option ServletError) (status : Nat)
    (page : ActiveServlet × PatternMatch) (x : Exchange) : Exchange :=
  let attributes := x.request.attributes.insert "webboard.error.status_code" (toString status)
  let request := { x.request with
    contextPath := p.mount.path.lead
    servletPath := page.2.servletPath
    pathInfo := page.2.pathInfo
    attributes := (failure.map fun e => attributes.insert "webboard.error.message" e.message).getD
      attributes }
  { x with
    request := request
    response := { x.response with status := status, body := [] }
    trace := x.trace ++ [(.errorPage page.1.element.id, request)] }

theorem forward_of_ok (h : invoke env s (forwarded p failure status (s, m) x) = (.ok (), y)) :
    forward env p failure status (s, m) x =
      (.ok (), y.setResponse fun r => { r with status := status }) := by
  cases failure <;>
    · simp only [forward]
      split <;> rename_i hy <;> cases hy.symm.trans h
      rfl

theorem forward_of_error {f : Fault}
    (h : invoke env s (forwarded p failure status (s, m) x) = (.error f, y)) :
    forward env p failure status (s, m) x = (.error f.reported, y) := by
  cases failure <;>
    · simp only [forward]
      split <;> rename_i hy <;> cases hy.symm.trans h <;> rfl

theorem report_some (e : ServletError) : report (some e) = .error e.reported := by
  simp only [report, ServletError.reported]
  split <;> rfl

theorem handleErrors_of_not_ails (h : ∀ status, ¬ Ails failure x.response status) :
    handleErrors env p failure x = (.ok (), x) := by
  rw [handleErrors, errorStatus_eq_none_iff.2 h]

theorem handleErrors_of_no_page (h : Ails failure x.response status)
    (hpage : errorPage p failure status = none) :
    handleErrors env p failure x = (report failure, x) := by
  simp only [handleErrors, errorStatus_eq_some_iff.2 h, hpage]

theorem handleErrors_of_page (h : Ails failure x.response status)
    (hpage : errorPage p failure status = some page) :
    handleErrors env p failure x = forward env p failure status page x := by
  simp only [handleErrors, errorStatus_eq_some_iff.2 h, hpage]

/-- What comes of a request after its chain: it was well, or nobody serves a page for its error, or the
servlet of the page answers, or fails itself. -/
inductive Answered (env : Surroundings) (p : Plan) (failure : Option ServletError) (x : Exchange) :
    Except DispatchError Unit → Exchange → Prop
  | well (h : ∀ status, ¬ Ails failure x.response status) : Answered env p failure x (.ok ()) x
  | unserved {status : Nat} (h : Ails failure x.response status)
    (hpage : errorPage p failure status = none) : Answered env p failure x (report failure) x
  | served {status : Nat} {s : ActiveServlet} {m : PatternMatch} {y : Exchange}
    (h : Ails failure x.response status) (hpage : errorPage p failure status = some (s, m))
    (hy : invoke env s (forwarded p failure status (s, m) x) = (.ok (), y)) :
    Answered env p failure x (.ok ()) (y.setResponse fun r => { r with status := status })
  | broken {status : Nat} {s : ActiveServlet} {m : PatternMatch} {f : Fault} {y : Exchange}
    (h : Ails failure x.response status) (hpage : errorPage p failure status = some (s, m))
    (hy : invoke env s (forwarded p failure status (s, m) x) = (.error f, y)) :
    Answered env p failure x (.error f.reported) y

theorem answered_handleErrors (env : Surroundings) (p : Plan) (failure : Option ServletError)
    (x : Exchange) :
    Answered env p failure x (handleErrors env p failure x).1 (handleErrors env p failure x).2 := by
  cases hstatus : errorStatus failure x.response with
  | none =>
    have hwell := errorStatus_eq_none_iff.1 hstatus
    rw [handleErrors_of_not_ails hwell]
    exact .well hwell
  | some status =>
    have hails := errorStatus_eq_some_iff.1 hstatus
    cases hpage : errorPage p failure status with
    | none =>
      rw [handleErrors_of_no_page hails hpage]
      exact .unserved hails hpage
    | some page =>
      obtain ⟨s, m⟩ := page
      rw [handleErrors_of_page hails hpage]
      rcases hy : invoke env s (forwarded p failure status (s, m) x) with ⟨f | _, y⟩
      · rw [forward_of_error hy]
        exact .broken hails hpage hy
      · rw [forward_of_ok hy]
        exact .served hails hpage hy

theorem Ails.status_eq {r : Response} (h : Ails failure r status) :
    status = if failure.isSome then 500 else r.status := by
  cases h <;> rfl

/-- The status of an answer is that of a failure, or else the one that the chain has left. -/
theorem Answered.status_eq {r : Except DispatchError Unit} (h : Answered env p failure x r y)
    (hok : r = .ok ()) :
    y.response.status = if failure.isSome then 500 else x.response.status := by
  cases h with
  | well h =>
    cases failure with
    | none => rfl
    | some e => exact absurd (.failed e _) (h 500)
  | unserved h =>
    cases failure with
    | none => rfl
    | some e =>
      rw [report_some] at hok
      cases hok
  | served h => exact h.status_eq
  | broken => cases hok

theorem Answered.ok_or_broken {r : Except DispatchError Unit} (h : Answered env p none x r y) :
    r = .ok () ∨ ∃ s m f, errorPage p none x.response.status = some (s, m) ∧
      invoke env s (forwarded p none x.response.status (s, m) x) = (.error f, y) ∧
        r = .error f.reported := by
  cases h with
  | broken h hpage hy =>
    obtain rfl := h.status_eq
    exact .inr ⟨_, _, _, hpage, hy, rfl⟩
  | _ => exact .inl rfl

/-- A request without a mount is not found, and a request that does not ail is answered with what its
chain has left. Any other is handed to the servlet that its mount selects for the location of the page for
the error: the status is that of the error, whatever this servlet sets, and the rest is what the servlet
makes of a response without a body. If the servlet fails, so does the request. Without such a servlet a
failure is reported with its message, and an error stays as it is. -/
theorem execute_forwards (env : Surroundings) (t : Table) (q : Incoming) (given : Pool) :
    let received : Exchange := { request := { toIncoming := q }, pool := given }
    let answer := execute env t q given
    (t.compose env.files q.uri.path = none →
      answer = (.ok (), received.setResponse (·.sendError 404))) ∧
    ∀ p pre filters pool₁ pool₂, t.compose env.files q.uri.path = some p →
      given.chain .preprocessor p.preprocessors = (.ok pre, pool₁) →
      pool₁.chain .filter p.filters = (.ok filters, pool₂) →
      let ended := Filter.chain env pre (runSecured env p filters) (entry p received pool₂)
      let failure := failureOf ended.1
      ((∀ status, ¬ Ails failure ended.2.response status) → answer = (.ok (), ended.2)) ∧
      ∀ status, Ails failure ended.2.response status →
        let page := (p.mount.errorPage (failure.bind (·.kind)) status).bind p.mount.select
        (∀ s m, page = some (s, m) → s ∈ p.mount.servlets ∧
          let x := forwarded p failure status (s, m) ended.2
          x.response.status = status ∧ x.response.body = [] ∧
          (∀ y, invoke env s x = (.ok (), y) →
            answer = (.ok (), y.setResponse fun r => { r with status := status })) ∧
          ∀ f y, invoke env s x = (.error f, y) → answer.1 = .error f.reported) ∧
        (page = none → (failure = none → answer = (.ok (), ended.2)) ∧
          ∀ e, failure = some e → answer.1 = .error e.reported ∧
            ∃ what, e.reported.message = what ++ e.message) := by
  intro received answer
  refine ⟨fun hnone => by simp only [answer, execute, hnone, received], ?_⟩
  intro p pre filters pool₁ pool₂ hp hpre hfilters ended failure
  have hanswer : answer = handleErrors env p failure ended.2 := by
    simp only [answer, execute, hp]
    exact runPlan_eq env hpre hfilters
  rw [hanswer]
  refine ⟨handleErrors_of_not_ails, fun status hails => ?_⟩
  intro page
  refine ⟨fun s m hpage => ?_, fun hnone => ?_⟩
  · obtain ⟨location, _, hselect⟩ := Option.bind_eq_some_iff.1 hpage
    rw [handleErrors_of_page hails hpage]
    refine ⟨(Mount.select_eq_some hselect).1, rfl, rfl, fun y h => forward_of_ok h, fun f y h => ?_⟩
    rw [forward_of_error h]
  · rw [handleErrors_of_no_page hails hnone]
    refine ⟨fun hfailure => by rw [hfailure, report], fun e he => ⟨?_, e.message_reported⟩⟩
    rw [he, report_some]

/-- A servlet that fails after it has written something, and a page for this failure that means to answer
with another status. -/
theorem execute_forwards_failure :
    let c : LogicalContext := { id := "c", path := ⟨"/"⟩, order := 0 }
    let servlet (id : ElementId) (path : String) (script : Script) : ActiveServlet :=
      ⟨{ Element.catchAll id ["c"] with
          patterns := .urls [.exact path], details := .servlet (.given (.script script)) }, some c⟩
    let broken := servlet 1 "/broken" [.write "half", .fail (some "broken") "no more"]
    let page := servlet 2 "/sorry" [.status 200, .write "sorry"]
    let error : Element :=
      { Element.catchAll 3 ["c"] with details := .errorPage [.exception "broken"] "/sorry" }
    let t : Table := ⟨[⟨⟨"/"⟩, [c], [broken, page], [], [error], []⟩], []⟩
    let env : Surroundings := ⟨⟨"", ∅⟩, fun _ => ""⟩
    let q : Incoming := { uri := ⟨"/broken", none⟩ }
    ∃ y : Exchange, y.response.status = 200 ∧ y.response.body = Utf8.encode "sorry" ∧
      execute env t q {} = (.ok (), y.setResponse fun r => { r with status := 500 }) := by
  intro c servlet broken page error t env q
  let p := Plan.inMount env.files t ⟨⟨"/"⟩, [c], [broken, page], [], [error], []⟩ "/broken"
  let ended := Filter.chain env [] (runSecured env p []) (entry p { request := { toIncoming := q } } {})
  let failure := failureOf ended.1
  let m : PatternMatch := ⟨.exact, "/sorry", none⟩
  have hp : t.compose env.files q.uri.path = some p := by decide +kernel
  have hfailure : failure = some ⟨some "broken", "no more"⟩ := by decide +kernel
  have hails : Ails failure ended.2.response 500 := hfailure ▸ .failed ..
  have hpage : errorPage p failure 500 = some (page, m) := by decide +kernel
  have hanswered : (invoke env page (forwarded p failure 500 (page, m) ended.2)).1.toBool := by
    decide +kernel
  obtain ⟨_, hinvoke⟩ := exists_of_toBool hanswered
  have hforwards := ((execute_forwards env t q {}).2 p [] [] {} {} hp rfl rfl).2 500 hails
  obtain ⟨_, _, _, hanswer, _⟩ := hforwards.1 page m hpage
  exact ⟨_, by decide +kernel, by decide +kernel, hanswer _ hinvoke⟩

end Dispatch

end ServletContainer
