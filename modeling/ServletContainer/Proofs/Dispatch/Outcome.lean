import ServletContainer.Proofs.Dispatch.Calls

/-! What a request is answered with. The outcome starts as "not found" and is only written when
security has been finished. So it tells what ran if the preprocessors pass the request on and the
end of security does not panic; if not, the request counts as not found whatever ran
(`Dispatch.outcome_runPlan`). -/
namespace ServletContainer

variable (env : Surroundings)

namespace Script

def ending : Script → Except Fault Unit
  | [] => .ok ()
  | a :: as =>
    match a with
    | .fail k m => .error (.failed ⟨k, m⟩)
    | .panic m => .error (.panicked m)
    | _ => ending as

theorem fst_run (number : Nat) (as : Script) (x : Exchange) :
    (run env number none as x).1 = as.ending := by
  induction as generalizing x with
  | nil => rfl
  | cons a as ih =>
    cases a with
    | fail k m => rfl
    | panic m => rfl
    | _ => exact ih _

end Script

def turnsAway (r : Except Fault Bool) : Bool :=
  match r with
  | .ok false => true
  | _ => false

namespace Helper

/-- Whether security can be finished: a helper panics over it either always or never. -/
def settles : Helper → Bool
  | .scripted _ _ finish _ =>
    match finish.ending with
    | .error (.panicked _) => false
    | _ => true
  | _ => true

def rejects (h : Helper) (x : Exchange) : Bool := turnsAway (handleSecurity env h x).1

theorem toBool_finishSecurity (h : Helper) (x : Exchange) :
    (finishSecurity env h x).1.toBool = h.settles := by
  cases h with
  | scripted allow security finish table =>
    simp only [finishSecurity, settles, ← Script.fst_run env 0 finish { x with response := {} }]
    rcases Script.run env 0 none finish { x with response := {} } with ⟨⟨e | m⟩ | u, y⟩ <;> rfl
  | _ => rfl

end Helper

namespace Filter

theorem Chain.outcome_passed {fs : Chain} {x y : Exchange} (h : fs.passed env x = some y) :
    y.outcome = x.outcome :=
  Chain.steady_passed env ((steady_record env).map env Prod.snd) (fun _ _ => rfl) h

theorem outcome_chain (fs : Chain) (last : Handler) (x : Exchange) :
    (chain env fs last x).2.outcome =
      (fs.passed env x).elim x.outcome fun y => (last y).2.outcome :=
  part_chain env ((steady_record env).map env Prod.snd) (fun _ _ => rfl) fs last x

theorem outcome_chain_of_forall {fs : Chain} {last : Handler}
    (h : ∀ y, (last y).2.outcome = y.outcome) (x : Exchange) :
    (chain env fs last x).2.outcome = x.outcome := by
  rw [outcome_chain]
  cases hy : fs.passed env x with
  | none => rfl
  | some y => exact (h y).trans (Chain.outcome_passed env hy)

end Filter

namespace Dispatch

variable {p : Plan} {x : Exchange}

def settles (p : Plan) : Bool := p.view.all fun c => c.helper.settles

def rejects (p : Plan) (x : Exchange) : Bool :=
  p.view.any fun c => c.helper.rejects env (x.called .security)

theorem toBool_finish (p : Plan) (x : Exchange) : (finish env p x).1.toBool = settles p := by
  unfold finish settles
  cases p.view with
  | none => rfl
  | some c => exact c.helper.toBool_finishSecurity env (x.called .finish)

theorem outcome_finish (p : Plan) (x : Exchange) : (finish env p x).2.outcome = x.outcome := by
  unfold finish
  cases p.view with
  | none => rfl
  | some c => exact congrArg Prod.snd (c.helper.discreet_finishSecurity env (x.called .finish))

theorem outcome_protected (p : Plan) (filters : Filter.Chain) (x : Exchange) :
    (Filter.chain env filters (runTarget env p) x).2.outcome = x.outcome :=
  Filter.outcome_chain_of_forall env (fun y => congrArg Prod.snd (record_runTarget env p y)) x

theorem outcome_guarded (p : Plan) (filters : Filter.Chain) (x : Exchange) :
    (guarded env p filters x).2.outcome = x.outcome := by
  unfold guarded
  cases p.view with
  | none => exact outcome_protected env p filters x
  | some c =>
    have hsecurity : (c.helper.handleSecurity env (x.called .security)).2.outcome = x.outcome :=
      congrArg Prod.snd (c.helper.record_handleSecurity env (x.called .security))
    simp only
    split
    · rename_i y hy
      rw [hy] at hsecurity
      exact (outcome_protected env p filters y).trans hsecurity
    · exact hsecurity

theorem turnsAway_guarded (p : Plan) (filters : Filter.Chain) (x : Exchange) :
    turnsAway (guarded env p filters x).1 = rejects env p x := by
  have hinside (r : Except Fault Unit) : turnsAway (r.map fun _ => true) = false := by
    cases r <;> rfl
  unfold guarded rejects
  cases p.view with
  | none => exact hinside _
  | some c =>
    simp only [Option.any_some, Helper.rejects]
    split
    · rename_i y hy
      rw [hinside, hy]
      rfl
    · rfl

theorem outcome_conclude (r : Except Fault Bool) (x : Exchange) :
    (conclude r x).2.outcome = if turnsAway r then .forbidden else .serviced := by
  rcases r with f | allowed
  · rfl
  · cases allowed <;> rfl

/-- What comes of a request that the preprocessors pass on. -/
theorem outcome_runSecured (p : Plan) (filters : Filter.Chain) (x : Exchange) :
    (runSecured env p filters x).2.outcome =
      if p.isEmpty then .notFound
      else if settles p then if rejects env p x then .forbidden else .serviced
      else x.outcome := by
  unfold runSecured
  split
  · rfl
  · simp only [Handler.andThen]
    have hfinish := toBool_finish env p (guarded env p filters x).2
    have houtcome := outcome_finish env p (guarded env p filters x).2
    split
    · rename_i y hy
      rw [hy] at hfinish
      rw [outcome_conclude, turnsAway_guarded, ← hfinish]
      rfl
    · rename_i f y hy
      rw [hy, outcome_guarded] at houtcome
      rw [hy] at hfinish
      rw [← hfinish]
      exact houtcome

theorem exists_chains (hok : (runPlan env p x).1 = .ok ()) : ∃ pre pool₁ filters pool₂,
    x.pool.chain .preprocessor p.preprocessors = (.ok pre, pool₁) ∧
      pool₁.chain .filter p.filters = (.ok filters, pool₂) := by
  rcases hpre : x.pool.chain .preprocessor p.preprocessors with ⟨e | pre, pool₁⟩
  · simp [runPlan, Exchange.setRequest, hpre] at hok
  · rcases hfilters : pool₁.chain .filter p.filters with ⟨e | filters, pool₂⟩
    · simp [runPlan, Exchange.setRequest, hpre, hfilters] at hok
    · exact ⟨pre, pool₁, filters, pool₂, rfl, hfilters⟩

/-- The outcome of a plan is that of the secured part. It stays open if the preprocessors keep the
request, and if security cannot be finished. -/
theorem outcome_runPlan (hok : (runPlan env p x).1 = .ok ()) :
    (runPlan env p x).2.outcome =
      match arrival env p x with
      | none => x.outcome
      | some y =>
        if p.isEmpty then .notFound
        else if settles p then if rejects env p y then .forbidden else .serviced
        else x.outcome := by
  obtain ⟨pre, pool₁, filters, pool₂, hpre, hfilters⟩ := exists_chains env hok
  have hrun := runPlan_eq env hpre hfilters
  have harrival := arrival_eq env hpre hfilters
  have herrors : (runPlan env p x).2.outcome = _ :=
    (congrArg (·.2.outcome) hrun).trans (congrArg Prod.snd (record_handleErrors ..))
  rw [herrors, Filter.outcome_chain, harrival]
  cases hy : pre.passed env (entry p x pool₂) with
  | none => rfl
  | some y =>
    have hyx : y.outcome = (entry p x pool₂).outcome := Filter.Chain.outcome_passed env hy
    change (runSecured env p filters y).2.outcome = _
    rw [outcome_runSecured, hyx]
    rfl

end Dispatch

end ServletContainer
