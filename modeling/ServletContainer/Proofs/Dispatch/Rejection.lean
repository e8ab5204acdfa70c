import ServletContainer.Proofs.Dispatch.Errors
import ServletContainer.Proofs.Dispatch.Outcome

/-! Requests that security turns away. The response that the helper leaves behind is kept if its status is
that of a client's error, and replaced otherwise (`Dispatch.rejection`). Its status stays the one of the
answer if the preprocessors only pass the request on, whatever error page is served
(`Dispatch.runPlan_rejected`). -/
namespace ServletContainer

/-- An exchange is passed on with the response as it is, and what is done around the next handler leaves
its answer alone. -/
def Exchange.PassedOn (x : Exchange) (passed : Option Exchange)
    (around : Handler → Except Fault Unit × Exchange) : Prop :=
  ∃ y, passed = some y ∧ y.response = x.response ∧ ∀ next,
    (around next).1 = (next y).1 ∧ (around next).2.response = (next y).2.response

variable (env : Surroundings)

namespace Filter

/-- The filter passes every request on, and the response is left to those who come next. -/
def PassesOn (f : Instance Filter) : Prop :=
  ∀ remaining (x : Exchange), x.PassedOn (passed env f remaining x) fun next => handle env f remaining next x

theorem passesOn_accessLog {f : Instance Filter} (h : f.behaviour = .accessLog) : PassesOn env f := by
  intro remaining x
  simp only [passed, handle, h]
  exact ⟨x, rfl, rfl, fun _ => ⟨rfl, rfl⟩⟩

theorem Chain.passedOn_of_passesOn {fs : Chain} (h : ∀ f ∈ fs, PassesOn env f.2) (x : Exchange) :
    x.PassedOn (fs.passed env x) fun last => chain env fs last x := by
  induction fs generalizing x with
  | nil => exact ⟨x, rfl, rfl, fun _ => ⟨rfl, rfl⟩⟩
  | cons f fs ih =>
    obtain ⟨hf, hfs⟩ := List.forall_mem_cons.1 h
    obtain ⟨z, hz, hzx, hhandle⟩ := hf fs.length (x.called f.1)
    obtain ⟨y, hy, hyz, hchain⟩ := ih hfs z
    refine ⟨y, ?_, hyz.trans hzx, fun last => ?_⟩
    · rw [passed, hz]
      exact hy
    · have hlast := hhandle (chain env fs last)
      exact ⟨hlast.1.trans (hchain last).1, hlast.2.trans (hchain last).2⟩

end Filter

theorem Helper.response_finishSecurity (h : Helper) (x : Exchange) :
    (finishSecurity env h x).2.response = x.response := by
  unfold finishSecurity
  split
  · split <;> rfl
  · rfl

namespace Dispatch

variable {p : Plan} {c : LogicalContext} {filters pre : Filter.Chain} {x z : Exchange}

theorem response_finish (p : Plan) (x : Exchange) :
    (finish env p x).2.response = x.response := by
  unfold finish
  cases p.view with
  | none => rfl
  | some c => exact c.helper.response_finishSecurity env (x.called .finish)

/-- What becomes of the response when security has turned the request away. -/
def rejection (r : Response) : Response :=
  if 400 ≤ r.status ∧ r.status ≤ 499 then r else r.sendError 403

theorem response_conclude_rejected (x : Exchange) :
    (conclude (.ok false) x).2.response = rejection x.response := by
  simp only [conclude, rejection]
  split <;> rfl

/-- A request that security turns away ends with the rejection, unless security cannot be finished. -/
theorem runSecured_rejected (filters : Filter.Chain) (hp : p.isEmpty = false)
    (hc : p.view = some c)
    (hz : c.helper.handleSecurity env (x.called .security) = (.ok false, z)) :
    (c.helper.settles → (runSecured env p filters x).1 = .ok () ∧
      (runSecured env p filters x).2.response = rejection z.response) ∧
    (c.helper.settles = false → (failureOf (runSecured env p filters x).1).isSome) := by
  have hguarded : guarded env p filters x = (.ok false, z) := by simp only [guarded, hc, hz]
  have hfinish : (finish env p z).1.toBool = c.helper.settles := by
    rw [toBool_finish, settles, hc, Option.all_some]
  have hresponse := response_finish env p z
  have hrun : runSecured env p filters x = (finish env p).andThen (conclude (.ok false)) z := by
    rw [runSecured, hp, hguarded]
    rfl
  obtain ⟨r, y, hy⟩ : ∃ r y, finish env p z = (r, y) := ⟨_, _, rfl⟩
  rw [hy] at hfinish hresponse
  rw [hrun, Handler.andThen, hy, ← hfinish]
  cases r with
  | error f => exact ⟨fun h => absurd h Bool.false_ne_true, fun _ => rfl⟩
  | ok =>
    refine ⟨fun _ => ⟨rfl, ?_⟩, fun h => absurd h.symm Bool.false_ne_true⟩
    exact (response_conclude_rejected y).trans (congrArg rejection hresponse)

/-- If the preprocessors only pass a request on that security turns away, errors are handled as those of
the rejection, or as a failure if security cannot be finished. -/
theorem runPlan_rejected {pool₁ pool₂ : Pool}
    (hpre : x.pool.chain .preprocessor p.preprocessors = (.ok pre, pool₁))
    (hfilters : pool₁.chain .filter p.filters = (.ok filters, pool₂))
    (hpass : ∀ f ∈ pre, Filter.PassesOn env f.2) (hp : p.isEmpty = false) (hc : p.view = some c) :
    ∃ y, arrival env p x = some y ∧ y.response = x.response ∧
      ∀ z, c.helper.handleSecurity env (y.called .security) = (.ok false, z) →
        ∃ failure w, Answered env p failure w (runPlan env p x).1 (runPlan env p x).2 ∧
          failure.isSome = !c.helper.settles ∧
          (c.helper.settles → w.response = rejection z.response) := by
  obtain ⟨y, hy, hresponse, hchain⟩ := Filter.Chain.passedOn_of_passesOn env hpass (entry p x pool₂)
  refine ⟨y, by simp only [arrival, hpre, hfilters, hy], hresponse, fun z hz => ?_⟩
  obtain ⟨hsettled, hunsettled⟩ := runSecured_rejected env filters hp hc hz
  obtain ⟨hfailure, hended⟩ := hchain (runSecured env p filters)
  rw [runPlan_eq env hpre hfilters]
  refine ⟨_, _, answered_handleErrors env p _ _, ?_, fun h => hended.trans (hsettled h).2⟩
  rw [hfailure]
  cases h : c.helper.settles with
  | true =>
    rw [(hsettled h).1]
    rfl
  | false => exact hunsettled h

end Dispatch

end ServletContainer
