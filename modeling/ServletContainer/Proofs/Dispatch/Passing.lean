import ServletContainer.Proofs.Dispatch.Inquiry
import ServletContainer.Proofs.Dispatch.Rejection

/-! Requests that are only passed on. If everybody around the target passes a request on and leaves the
response alone, then what the target makes of it is the answer (`Dispatch.OnlyPassed.answered`). -/
namespace ServletContainer

variable (env : Surroundings)

/-- The security of a context lets the request in with the response as it is, and can be finished. -/
def Helper.PassesOn (h : Helper) (x : Exchange) : Prop :=
  h.settles ∧ ∃ z, h.handleSecurity env x = (.ok true, z) ∧ z.response = x.response

namespace Dispatch

variable {env} {p : Plan} {filters : Filter.Chain} {x : Exchange}

/-- Everybody around the target of a plan can be found, and only passes the request on. -/
structure OnlyPassed (env : Surroundings) (p : Plan) (x : Exchange) : Prop where
  filters : ∃ pre pool₁ filters pool₂, x.pool.chain .preprocessor p.preprocessors = (.ok pre, pool₁) ∧
    pool₁.chain .filter p.filters = (.ok filters, pool₂) ∧ ∀ f ∈ pre ++ filters, Filter.PassesOn env f.2
  security : ∀ c, p.view = some c → ∀ y, arrival env p x = some y →
    c.helper.PassesOn env (y.called .security)

theorem conclude_of_map (r : Except Fault Unit) (x : Exchange) :
    failureOf (conclude (r.map fun _ => true) x).1 = failureOf r ∧
      (conclude (r.map fun _ => true) x).2.response = x.response := by
  cases r <;> exact ⟨rfl, rfl⟩

theorem guarded_passed (hpass : ∀ f ∈ filters, Filter.PassesOn env f.2)
    (hsecurity : ∀ c, p.view = some c → c.helper.PassesOn env (x.called .security)) :
    ∃ y, y.response = x.response ∧ y.request.method = x.request.method ∧
      (guarded env p filters x).1 = (runTarget env p y).1.map (fun _ => true) ∧
      (guarded env p filters x).2.response = (runTarget env p y).2.response := by
  have hinside (z : Exchange) : ∃ y, y.response = z.response ∧ y.request.method = z.request.method ∧
      let inside := Filter.chain env filters (runTarget env p) z
      inside.1 = (runTarget env p y).1 ∧ inside.2.response = (runTarget env p y).2.response := by
    obtain ⟨y, hy, hresponse, hchain⟩ := Filter.Chain.passedOn_of_passesOn env hpass z
    have hmethod := Filter.Chain.steady_passed env (steady_method env) (fun _ _ => rfl) hy
    exact ⟨y, hresponse, hmethod, hchain _⟩
  unfold guarded
  cases hview : p.view with
  | none =>
    obtain ⟨y, hresponse, hmethod, hresult, hleft⟩ := hinside x
    exact ⟨y, hresponse, hmethod, congrArg (Except.map fun _ => true) hresult, hleft⟩
  | some c =>
    obtain ⟨_, z, hz, hzresponse⟩ := hsecurity c hview
    have hzmethod := c.helper.steady_handleSecurity env (steady_method env) (x.called .security)
    rw [hz] at hzmethod
    obtain ⟨y, hresponse, hmethod, hresult, hleft⟩ := hinside z
    simp only [hz]
    exact ⟨y, hresponse.trans hzresponse, hmethod.trans hzmethod,
      congrArg (Except.map fun _ => true) hresult, hleft⟩

theorem runSecured_passed (hpass : ∀ f ∈ filters, Filter.PassesOn env f.2)
    (hsecurity : ∀ c, p.view = some c → c.helper.PassesOn env (x.called .security))
    (hp : p.isEmpty = false) :
    ∃ y, y.response = x.response ∧ y.request.method = x.request.method ∧
      failureOf (runSecured env p filters x).1 = failureOf (runTarget env p y).1 ∧
      (runSecured env p filters x).2.response = (runTarget env p y).2.response := by
  obtain ⟨y, hresponse, hmethod, hresult, hleft⟩ := guarded_passed hpass hsecurity
  refine ⟨y, hresponse, hmethod, ?_⟩
  have hsettles : settles p := by
    unfold settles
    cases hview : p.view with
    | none => rfl
    | some c => exact (hsecurity c hview).1
  have hfinish := toBool_finish env p (guarded env p filters x).2
  have hkept := response_finish env p (guarded env p filters x).2
  obtain ⟨r, w, hw⟩ : ∃ r w, finish env p (guarded env p filters x).2 = (r, w) := ⟨_, _, rfl⟩
  rw [hw] at hfinish hkept
  cases r with
  | error f => exact absurd (hfinish.trans hsettles) Bool.false_ne_true
  | ok =>
    simp only [runSecured, hp, Bool.false_eq_true, if_false, Handler.andThen, hw, hresult]
    obtain ⟨hfailure, hconcluded⟩ := conclude_of_map (runTarget env p y).1 w
    exact ⟨hfailure, hconcluded.trans (hkept.trans hleft)⟩

/-- The target of a request that is only passed on leaves the answer, but for what is done about errors. -/
theorem OnlyPassed.answered (h : OnlyPassed env p x) (hp : p.isEmpty = false) :
    ∃ y w, y.response = x.response ∧ y.request.method = x.request.method ∧
      w.response = (runTarget env p y).2.response ∧
      Answered env p (failureOf (runTarget env p y).1) w (runPlan env p x).1 (runPlan env p x).2 := by
  obtain ⟨pre, pool₁, filters, pool₂, hpre, hfilters, hpass⟩ := h.filters
  rw [List.forall_mem_append] at hpass
  obtain ⟨z, hz, hzresponse, hchain⟩ := Filter.Chain.passedOn_of_passesOn env hpass.1 (entry p x pool₂)
  have hzmethod : z.request.method = (entry p x pool₂).request.method :=
    Filter.Chain.steady_passed env (steady_method env) (fun _ _ => rfl) hz
  have harrival : arrival env p x = some z := (arrival_eq env hpre hfilters).trans hz
  obtain ⟨y, hresponse, hmethod, hfailure, hleft⟩ :=
    runSecured_passed hpass.2 (fun c hc => h.security c hc z harrival) hp
  obtain ⟨hended, hendedleft⟩ := hchain (runSecured env p filters)
  refine ⟨y, _, hresponse.trans hzresponse, hmethod.trans hzmethod, hendedleft.trans hleft, ?_⟩
  rw [runPlan_eq env hpre hfilters, ← hfailure, ← hended]
  exact answered_handleErrors env p _ _

theorem OnlyPassed.answer_eq (h : OnlyPassed env p x) (hp : p.isEmpty = false)
    (reply : Response → Response)
    (htarget : ∀ y, y.request.method = x.request.method →
      (runTarget env p y).1 = .ok () ∧ (runTarget env p y).2.response = reply y.response)
    (hwell : (reply x.response).status < 400) :
    (runPlan env p x).1 = .ok () ∧ (runPlan env p x).2.response = reply x.response := by
  obtain ⟨y, w, hresponse, hmethod, hleft, hanswered⟩ := h.answered hp
  obtain ⟨hok, htarget⟩ := htarget y hmethod
  rw [htarget, hresponse] at hleft
  rw [hok] at hanswered
  generalize runPlan env p x = answer at hanswered
  obtain ⟨r, z⟩ := answer
  have hno (status : Nat) : ¬ Ails none w.response status := by
    rintro ⟨⟩
    rename_i h _
    rw [hleft] at h
    omega
  cases hanswered with
  | well => exact ⟨rfl, hleft⟩
  | unserved hails => exact absurd hails (hno _)
  | served hails => exact absurd hails (hno _)
  | broken hails => exact absurd hails (hno _)

theorem isEmpty_of_target (h : p.target ≠ .nothing) : p.isEmpty = false := by
  rw [Plan.isEmpty, beq_eq_false_iff_ne.2 h, Bool.false_and]

theorem OnlyPassed.answer_eq_reply (h : OnlyPassed env p x) (hget : x.request.method = "GET")
    (hblank : x.response = {}) {s : ActiveServlet} {pm : PatternMatch} {i : Inquiry} {bytes : Bytes}
    (htarget : p.target = .servlet s pm) (hi : s.inquiry pm = some i)
    (hcontent : i.content env.files = some bytes) :
    (runPlan env p x).1 = .ok () ∧ (runPlan env p x).2.response = i.reply env.files {} := by
  rw [← hblank]
  refine h.answer_eq (isEmpty_of_target (by simp [htarget])) (i.reply env.files) (fun y hy => ?_) ?_
  · rw [runTarget, htarget]
    exact invoke_eq_reply env (x := (Plan.aim p pm y).called .target) hi (hy.trans hget) rfl rfl
  · rw [Inquiry.status_reply hcontent, hblank]
    decide

end Dispatch

end ServletContainer
