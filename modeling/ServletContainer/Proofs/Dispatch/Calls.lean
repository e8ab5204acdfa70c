import ServletContainer.Dispatch.Execute
import ServletContainer.Proofs.Deployment.Changes

/-! The calls that a request makes. Collaborators note nothing themselves but for the filters, which
may pass the request on; so the calls of a chain are those of its filters up to the first that keeps
the request, and then those of what it protects, if there is no such filter, on the exchange that the
last filter passes on (`Filter.calls_chain`). From this follow the calls of security with all it protects
(`Dispatch.calls_runSecured`) and those of a whole plan (`Dispatch.calls_runPlan`). -/
namespace ServletContainer

def Exchange.record (x : Exchange) : List Call × Outcome := (x.calls, x.outcome)

theorem Exchange.record_called (x : Exchange) (c : Call) :
    (x.called c).record = (x.calls ++ [c], x.outcome) := by
  rw [record, calls_called]
  rfl

def Handler.Quiet (h : Handler) : Prop := ∀ x, (h x).2.calls = x.calls

def Handler.Discreet (h : Handler) : Prop := ∀ x, (h x).2.record = x.record

theorem Handler.Discreet.quiet {h : Handler} (hd : h.Discreet) : h.Quiet :=
  fun x => congrArg Prod.fst (hd x)

variable (env : Surroundings)

/-- A part of the exchange that scripts do not change, nor those who only write to the response. -/
structure Steady {β : Type} (part : Exchange → β) : Prop where
  act (number : Nat) (remaining : Option Nat) (x : Exchange) (a : Action) :
    part (Script.act env number remaining x a) = part x
  setResponse (x : Exchange) (f : Response → Response) : part (x.setResponse f) = part x

/-- All that an action can do is to change the response, to take a note, or to set headers and attributes
of the request. -/
theorem Script.act_cases (number : Nat) (remaining : Option Nat) (x : Exchange) (a : Action) :
    (∃ f, act env number remaining x a = x.setResponse f) ∨
    (∃ line, act env number remaining x a = x.note line) ∨
    ∃ headers attributes, act env number remaining x a =
      x.setRequest fun q => { q with headers := headers, attributes := attributes } := by
  have hnothing : ∃ f, x = x.setResponse f := ⟨id, rfl⟩
  cases a with
  | header n v =>
    simp only [act]
    split
    · exact .inl ⟨_, rfl⟩
    · exact .inl hnothing
  | requestHeader n v =>
    simp only [act]
    split
    · exact .inr (.inr ⟨_, _, rfl⟩)
    · exact .inl hnothing
  | setAttribute k v => exact .inr (.inr ⟨_, _, rfl⟩)
  | log t => exact .inr (.inl ⟨_, rfl⟩)
  | logStatus => exact .inr (.inl ⟨_, rfl⟩)
  | proceed => exact .inl hnothing
  | proceedCatch => exact .inl hnothing
  | fail => exact .inl hnothing
  | panic => exact .inl hnothing
  | _ =>
    simp only [act, Exchange.write]
    exact .inl ⟨_, rfl⟩

variable {β : Type} {part : Exchange → β}

theorem Steady.of_parts (hresponse : ∀ x f, part (x.setResponse f) = part x)
    (hnote : ∀ x line, part (x.note line) = part x)
    (hrequest : ∀ x headers attributes, part (x.setRequest fun q =>
      { q with headers := headers, attributes := attributes }) = part x) : Steady env part where
  act number remaining x a := by
    rcases Script.act_cases env number remaining x a with ⟨_, h⟩ | ⟨_, h⟩ | ⟨_, _, h⟩ <;> rw [h]
    · exact hresponse ..
    · exact hnote ..
    · exact hrequest ..
  setResponse := hresponse

theorem steady_record : Steady env Exchange.record :=
  .of_parts env (fun _ _ => rfl) (fun _ _ => rfl) fun _ _ _ => rfl

theorem steady_trace : Steady env Exchange.trace :=
  .of_parts env (fun _ _ => rfl) (fun _ _ => rfl) fun _ _ _ => rfl

theorem steady_pool : Steady env Exchange.pool :=
  .of_parts env (fun _ _ => rfl) (fun _ _ => rfl) fun _ _ _ => rfl

theorem steady_method : Steady env fun x => x.request.method :=
  .of_parts env (fun _ _ => rfl) (fun _ _ => rfl) fun _ _ _ => rfl

theorem Steady.map {γ : Type} (h : Steady env part) (f : β → γ) : Steady env fun x => f (part x) where
  act number remaining x a := congrArg f (h.act number remaining x a)
  setResponse x g := congrArg f (h.setResponse x g)

namespace Script

/-- Whether a script comes to pass the request on: it does so before it fails or panics. -/
def proceeds : Script → Bool
  | [] => false
  | a :: as =>
    match a with
    | .proceed => true
    | .proceedCatch => true
    | .fail .. => false
    | .panic _ => false
    | _ => proceeds as

def passed (number remaining : Nat) : Script → Exchange → Option Exchange
  | [], _ => none
  | a :: as, x =>
    match a with
    | .proceed => some x
    | .proceedCatch => some x
    | .fail .. => none
    | .panic _ => none
    | a => passed number remaining as (act env number (some remaining) x a)

theorem steady_run (h : Steady env part) (number : Nat) (as : Script) (x : Exchange) :
    part (run env number none as x).2 = part x := by
  induction as generalizing x with
  | nil => rfl
  | cons a as ih =>
    cases a with
    | fail k m => rfl
    | panic m => rfl
    | _ => exact (ih _).trans (h.act ..)

theorem steady_passed (h : Steady env part) {number remaining : Nat} {as : Script} {x y : Exchange}
    (hy : passed env number remaining as x = some y) : part y = part x := by
  induction as generalizing x with
  | nil => cases hy
  | cons a as ih =>
    cases a with
    | fail k m => cases hy
    | panic m => cases hy
    | proceed => exact congrArg part (Option.some.inj hy).symm
    | proceedCatch => exact congrArg part (Option.some.inj hy).symm
    | _ => exact (ih hy).trans (h.act ..)

theorem isSome_passed (number remaining : Nat) (as : Script) (x : Exchange) :
    (passed env number remaining as x).isSome = as.proceeds := by
  induction as generalizing x with
  | nil => rfl
  | cons a as ih =>
    cases a with
    | fail k m => rfl
    | panic m => rfl
    | proceed => rfl
    | proceedCatch => rfl
    | _ => exact ih _

/-- What a script does not change is as the rest of the chain leaves it, if the script passes the request
on. -/
theorem part_run (h : Steady env part) (number remaining : Nat) (rest : Handler) (as : Script)
    (x : Exchange) : part (run env number (some (remaining, rest)) as x).2 =
      (passed env number remaining as x).elim (part x) fun y => part (rest y).2 := by
  induction as generalizing x with
  | nil => rfl
  | cons a as ih =>
    cases a with
    | fail k m => rfl
    | panic m => rfl
    | proceed =>
      simp only [run, Handler.andThen, passed, Option.elim_some]
      split
      · rename_i y hy
        rw [steady_run env h, hy]
      · rename_i hy
        rw [hy]
    | proceedCatch =>
      simp only [run, passed, Option.elim_some]
      split
      · rename_i y hy
        rw [steady_run env h, hy]
      · rename_i y hy
        rw [steady_run env h, hy]
        exact h.setResponse _ _
      · rename_i hy
        rw [hy]
    | _ =>
      rw [← h.act number (some remaining) x]
      exact ih _

end Script

theorem Servlet.steady_service (hpart : Steady env part) (s : Instance Servlet) (x : Exchange) :
    part (Servlet.service env s x).2 = part x := by
  cases hs : s.behaviour with
  | script as =>
    simp only [Servlet.service, hs]
    exact Script.steady_run env hpart _ _ x
  | echo => simp only [Servlet.service, hs, Exchange.write, hpart.setResponse]
  | inspect =>
    simp only [Servlet.service, hs, inspection]
    split <;> simp only [Exchange.write, hpart.setResponse]

theorem Resource.steady_service (hpart : Steady env part) (folder : String) (x : Exchange) :
    part (Resource.service env folder x).2 = part x := by
  simp only [Resource.service]
  split
  · simp only [hpart.setResponse]
  · split
    · simp only [hpart.setResponse]
    · split <;> simp only [hpart.setResponse]

namespace Helper

theorem steady_handleSecurity (hpart : Steady env part) (h : Helper) (x : Exchange) :
    part (handleSecurity env h x).2 = part x := by
  unfold handleSecurity
  split
  · rfl
  · rfl
  · split
    · rfl
    · simp only [hpart.setResponse]
  · rename_i script _ _
    have hx := Script.steady_run env hpart 0 script x
    split <;> rename_i hy <;> rw [hy] at hx <;> exact hx

theorem record_handleSecurity (h : Helper) (x : Exchange) :
    (handleSecurity env h x).2.record = x.record :=
  h.steady_handleSecurity env (steady_record env) x

theorem steady_finishSecurity (hpart : Steady env part) (h : Helper) (x : Exchange) :
    part (finishSecurity env h x).2 = part x := by
  unfold finishSecurity
  split
  · rename_i script _
    have hrun := Script.steady_run env hpart 0 script (x.setResponse fun _ => {})
    have hrestored (y : Exchange) (hy : part y = part (x.setResponse fun _ => {})) :
        part { y with response := x.response } = part x :=
      (hpart.setResponse y fun _ => x.response).trans (hy.trans (hpart.setResponse x fun _ => {}))
    simp only [Exchange.setResponse] at hrun hrestored
    split <;> rename_i hy <;> rw [hy] at hrun <;> exact hrestored _ hrun
  · rfl

theorem discreet_finishSecurity (h : Helper) : (finishSecurity env h).Discreet :=
  h.steady_finishSecurity env (steady_record env)

/-- Whether the context lets the request in; it does not if it panics over it. -/
def admits (h : Helper) (x : Exchange) : Bool :=
  match (handleSecurity env h x).1 with
  | .ok true => true
  | _ => false

end Helper

namespace Filter

def proceeds : Filter → Bool
  | .script as => as.proceeds
  | .accessLog => true

def passed (f : Instance Filter) (remaining : Nat) (x : Exchange) : Option Exchange :=
  match f.behaviour with
  | .script as => as.passed env f.number remaining x
  | .accessLog => some x

theorem isSome_passed (f : Instance Filter) (remaining : Nat) (x : Exchange) :
    (passed env f remaining x).isSome = f.behaviour.proceeds := by
  unfold passed
  cases f.behaviour with
  | script as => exact Script.isSome_passed ..
  | accessLog => rfl

theorem steady_passed (h : Steady env part) {f : Instance Filter} {remaining : Nat} {x y : Exchange}
    (hy : passed env f remaining x = some y) : part y = part x := by
  unfold passed at hy
  split at hy
  · exact Script.steady_passed env h hy
  · exact congrArg part (Option.some.inj hy).symm

theorem record_passed {f : Instance Filter} {remaining : Nat} {x y : Exchange}
    (h : passed env f remaining x = some y) : y.record = x.record :=
  steady_passed env (steady_record env) h

theorem part_handle (h : Steady env part) (f : Instance Filter) (remaining : Nat) (next : Handler)
    (x : Exchange) : part (handle env f remaining next x).2 =
      (passed env f remaining x).elim (part x) fun y => part (next y).2 := by
  unfold handle passed
  cases f.behaviour with
  | script as => exact Script.part_run env h _ _ _ as x
  | accessLog => rfl

theorem record_handle (f : Instance Filter) (remaining : Nat) (next : Handler) (x : Exchange) :
    (handle env f remaining next x).2.record =
      (passed env f remaining x).elim x.record fun y => (next y).2.record :=
  part_handle env (steady_record env) f remaining next x

namespace Chain

/-- The calls of a chain around those that it protects: each filter is called if all filters before
it pass the request on, and what is inside if all of them do. -/
def around (inside : List Call) : Chain → List Call
  | [] => inside
  | f :: fs => f.1 :: if f.2.behaviour.proceeds then around inside fs else []

def passes (fs : Chain) : Bool := fs.all fun f => f.2.behaviour.proceeds

variable {fs : Chain} {inside more : List Call}

/-- What is inside is reached if all pass the request on. -/
theorem around_eq (fs : Chain) (inside : List Call) :
    fs.around inside = fs.around [] ++ if fs.passes then inside else [] := by
  induction fs with
  | nil => rfl
  | cons f fs ih =>
    rw [around, around]
    split
    · rename_i hf
      have hpasses : passes (f :: fs) = passes fs := by simp [passes, hf]
      rw [ih, hpasses, List.cons_append]
    · rename_i hf
      have hpasses : passes (f :: fs) = false := by simp [passes, hf]
      rw [hpasses]
      rfl

theorem around_prefix (fs : Chain) : fs.around [] <+: fs.map (·.1) := by
  induction fs with
  | nil => exact List.prefix_rfl
  | cons f fs ih =>
    rw [around, List.map_cons, List.prefix_cons_inj]
    split
    · exact ih
    · exact List.nil_prefix

theorem around_sublist (h : inside.Sublist more) :
    (fs.around inside).Sublist (fs.map (·.1) ++ more) := by
  rw [around_eq]
  refine fs.around_prefix.sublist.append ?_
  split
  · exact h
  · exact List.nil_sublist _

/-- The exchange with which a chain of filters passes the request on, if all of them do. -/
def passed : Chain → Exchange → Option Exchange
  | [], x => some x
  | f :: fs, x => (Filter.passed env f.2 fs.length (x.called f.1)).bind (passed fs)

variable {x y : Exchange}

theorem isSome_passed (fs : Chain) (x : Exchange) : (fs.passed env x).isSome = fs.passes := by
  induction fs generalizing x with
  | nil => rfl
  | cons f fs ih =>
    have hf := Filter.isSome_passed env f.2 fs.length (x.called f.1)
    have hpasses : passes (f :: fs) = (f.2.behaviour.proceeds && passes fs) := rfl
    rw [passed, hpasses, ← hf]
    cases Filter.passed env f.2 fs.length (x.called f.1) with
    | none => rfl
    | some z => exact ih z

theorem steady_passed (hpart : Steady env part) (hcalled : ∀ x c, part (x.called c) = part x)
    (h : fs.passed env x = some y) : part y = part x := by
  induction fs generalizing x with
  | nil => exact congrArg part (Option.some.inj h).symm
  | cons f fs ih =>
    obtain ⟨z, hz, hy⟩ := Option.bind_eq_some_iff.1 h
    exact (ih hy).trans ((Filter.steady_passed env hpart hz).trans (hcalled x f.1))

theorem calls_passed (h : fs.passed env x = some y) : y.calls = x.calls ++ fs.around [] := by
  induction fs generalizing x with
  | nil => rw [← Option.some.inj h, around, List.append_nil]
  | cons f fs ih =>
    obtain ⟨z, hz, hy⟩ := Option.bind_eq_some_iff.1 h
    have hzx : z.calls = x.calls ++ [f.1] :=
      (congrArg Prod.fst (Filter.record_passed env hz)).trans (x.calls_called f.1)
    have hproceeds : f.2.behaviour.proceeds := by
      rw [← Filter.isSome_passed env f.2 fs.length (x.called f.1), hz]
      rfl
    rw [ih hy, hzx, around, if_pos hproceeds, List.append_assoc]
    rfl

end Chain

/-- What neither scripts nor calls change is as that leaves it which the chain protects, if the chain passes
the request on. -/
theorem part_chain (hpart : Steady env part) (hcalled : ∀ x c, part (x.called c) = part x) (fs : Chain)
    (last : Handler) (x : Exchange) :
    part (chain env fs last x).2 = (fs.passed env x).elim (part x) fun y => part (last y).2 := by
  induction fs generalizing x with
  | nil => rfl
  | cons f fs ih =>
    have hhandle := part_handle env hpart f.2 fs.length (chain env fs last) (x.called f.1)
    rw [Chain.passed]
    cases hz : Filter.passed env f.2 fs.length (x.called f.1) with
    | none =>
      rw [hz] at hhandle
      exact hhandle.trans (hcalled x f.1)
    | some z =>
      rw [hz] at hhandle
      rw [Option.bind_some, ← hcalled x f.1, ← steady_passed env hpart hz, ← ih z]
      exact hhandle

/-- The calls of a chain are those of its filters and then those of what it protects. -/
theorem calls_chain (fs : Chain) (last : Handler) (x : Exchange) :
    (chain env fs last x).2.calls =
      (fs.passed env x).elim (x.calls ++ fs.around []) fun y => (last y).2.calls := by
  induction fs generalizing x with
  | nil => rfl
  | cons f fs ih =>
    have hrecord := record_handle env f.2 fs.length (chain env fs last) (x.called f.1)
    have hf := isSome_passed env f.2 fs.length (x.called f.1)
    rw [Chain.passed, Chain.around, ← hf]
    cases hz : passed env f.2 fs.length (x.called f.1) with
    | none =>
      rw [hz] at hrecord
      exact (congrArg Prod.fst hrecord).trans (x.calls_called f.1)
    | some z =>
      rw [hz] at hrecord
      have hzx : z.calls = x.calls ++ [f.1] :=
        (congrArg Prod.fst (record_passed env hz)).trans (x.calls_called f.1)
      have hcalls : (chain env (f :: fs) last x).2.calls = (chain env fs last z).2.calls :=
        congrArg Prod.fst hrecord
      rw [hcalls, ih z, hzx, List.append_assoc]
      rfl

end Filter

namespace Dispatch

variable {p : Plan} {c : LogicalContext}

theorem steady_invoke (hpart : Steady env part) (hview : ∀ x view, part (x.setRequest fun q =>
    { q with view := view }) = part x) (hpool : ∀ x pool, part { x with pool := pool } = part x)
    (s : ActiveServlet) (x : Exchange) : part (invoke env s x).2 = part x := by
  simp only [invoke]
  split
  · split
    · rw [Servlet.steady_service env hpart, hpool, hview]
    · rw [hpool, hview]
  · rw [Resource.steady_service env hpart, hview]
  · rw [hview]

theorem discreet_invoke (s : ActiveServlet) : (invoke env s).Discreet :=
  steady_invoke env (steady_record env) (fun _ _ => rfl) (fun _ _ => rfl) s

theorem record_runTarget (p : Plan) (x : Exchange) :
    (runTarget env p x).2.record = (x.calls ++ [.target], x.outcome) := by
  unfold runTarget
  split
  · exact (discreet_invoke env _ _).trans (Exchange.record_called ..)
  · exact x.record_called .target
  · exact x.record_called .target

theorem calls_finish (hc : p.view = some c) (x : Exchange) :
    (finish env p x).2.calls = x.calls ++ [.finish] := by
  unfold finish
  rw [hc, ← x.calls_called]
  exact (Helper.discreet_finishSecurity env c.helper).quiet (x.called .finish)

theorem quiet_conclude (r : Except Fault Bool) : (conclude r).Quiet := by
  intro x
  unfold conclude
  split
  · rfl
  · simp only
    split <;> rfl
  · rfl

/-- The calls of what the preprocessors pass the request on to: security comes first and is finished
last, and the filters and the target come between if security lets the request in. -/
def secured (p : Plan) (filters : Filter.Chain) (x : Exchange) : List Call :=
  if p.isEmpty then []
  else
    match p.view with
    | none => filters.around [.target]
    | some c =>
      .security ::
        (if c.helper.admits env (x.called .security) then filters.around [.target] else []) ++
          [.finish]

variable (filters : Filter.Chain)

theorem calls_protected (p : Plan) (x : Exchange) :
    (Filter.chain env filters (runTarget env p) x).2.calls = x.calls ++ filters.around [.target] := by
  have hpassed := filters.isSome_passed env x
  rw [Filter.calls_chain, filters.around_eq [.target], ← hpassed]
  cases hy : filters.passed env x with
  | none => simp
  | some y =>
    have hcalls : (runTarget env p y).2.calls = y.calls ++ [.target] :=
      congrArg Prod.fst (record_runTarget env p y)
    simp [hcalls, Filter.Chain.calls_passed env hy]

theorem calls_guarded (hc : p.view = some c) (x : Exchange) :
    (guarded env p filters x).2.calls = x.calls ++ .security ::
      if c.helper.admits env (x.called .security) then filters.around [.target] else [] := by
  have hx : (c.helper.handleSecurity env (x.called .security)).2.calls = x.calls ++ [.security] :=
    (congrArg Prod.fst (c.helper.record_handleSecurity env (x.called .security))).trans
      (x.calls_called .security)
  obtain ⟨r, y, hs⟩ : ∃ r y, c.helper.handleSecurity env (x.called .security) = (r, y) :=
    ⟨_, _, rfl⟩
  rw [hs] at hx
  simp only [guarded, hc, Helper.admits, hs]
  match r with
  | .ok true =>
    simp only [if_true]
    rw [calls_protected, hx, List.append_assoc, List.singleton_append]
  | .ok false => exact hx
  | .error f => exact hx

theorem calls_runSecured (x : Exchange) :
    (runSecured env p filters x).2.calls = x.calls ++ secured env p filters x := by
  by_cases hp : p.isEmpty = true
  · simp [runSecured, secured, hp, Exchange.setResponse, Exchange.calls]
  · -- whichever way the guarded part ends, security is finished, and nobody is called after that
    have hrun : (runSecured env p filters x).2.calls =
        (finish env p (guarded env p filters x).2).2.calls := by
      simp only [runSecured, hp, Bool.false_eq_true, if_false, Handler.andThen]
      split
      · rename_i hy
        rw [quiet_conclude, hy]
      · rename_i hy
        rw [hy]
    rw [hrun, secured, if_neg hp]
    cases hc : p.view with
    | none =>
      simp only [finish, guarded, hc, Handler.pass]
      exact calls_protected env filters p x
    | some c =>
      rw [calls_finish env hc, calls_guarded env filters hc, List.append_assoc]

theorem security_first {filters : Filter.Chain} (hc : p.view = some c) (hp : p.isEmpty = false)
    (x : Exchange) : x.calls ++ [.security] <+: (runSecured env p filters x).2.calls := by
  rw [calls_runSecured, secured, hp, hc]
  simp

def pageCalls (page : Option ActiveServlet) : List Call :=
  page.toList.map fun s => .errorPage s.element.id

/-- The error page that a failure or a response asks for. -/
def pageFor (p : Plan) (failure : Option ServletError) (r : Response) : Option ActiveServlet :=
  ((errorStatus failure r).bind (errorPage p failure)).map (·.1)

theorem record_handleErrors (p : Plan) (failure : Option ServletError) (x : Exchange) :
    (handleErrors env p failure x).2.record =
      (x.calls ++ pageCalls (pageFor p failure x.response), x.outcome) := by
  unfold handleErrors pageFor pageCalls
  split
  · rename_i hs
    simp [hs, Exchange.record]
  · rename_i status hs
    split
    · rename_i hpage
      simp [hs, hpage, Exchange.record]
    · rename_i page hpage
      simp only [hs, hpage, Option.bind_some, Option.map_some, Option.toList_some, List.map_cons,
        List.map_nil, forward]
      have hd (y : Exchange) := (discreet_invoke env page.1 _).trans
        (y.record_called (.errorPage page.1.element.id))
      split <;> rename_i hy <;> exact (congrArg (fun r => r.2.record) hy).symm.trans (hd _)

/-- Filters are noted as filters. -/
def IsBefore (fs : Filter.Chain) : Prop := ∀ f ∈ fs, f.1 ≠ .target

theorem isBefore_of_chain {call : ElementId → Call} {es : List Element} {pool pool' : Pool}
    {fs : Filter.Chain} (h : pool.chain call es = (.ok fs, pool'))
    (hcall : ∀ id, call id ≠ .target) : IsBefore fs := by
  induction es generalizing pool fs with
  | nil =>
    cases h
    exact fun f hf => by cases hf
  | cons e es ih =>
    unfold Pool.chain at h
    split at h
    · split at h
      · cases h
      · obtain ⟨hrest, hpool⟩ := Prod.mk.inj h
        obtain ⟨rest, hr, rfl⟩ := exists_of_map_ok hrest
        exact List.forall_mem_cons.2 ⟨hcall _, ih (Prod.ext hr hpool)⟩
    · exact ih h

/-- The exchange that the preprocessors of a plan are handed. -/
def entry (p : Plan) (x : Exchange) (pool : Pool) : Exchange :=
  { x.setRequest fun q =>
      { q.setPaths p.mount.path.lead p.relative none with view := p.view.map fun c => ⟨c, none⟩ }
    with pool := pool }

/-- The failure that a chain ends with, if it does. -/
def failureOf (r : Except Fault Unit) : Option ServletError :=
  match r with
  | .ok _ => none
  | .error f => some f.error

/-- A plan whose preprocessors and filters were found ends with its error page, if there is one. -/
theorem runPlan_eq {pre filters : Filter.Chain} {x : Exchange} {pool₁ pool₂ : Pool}
    (hpre : x.pool.chain .preprocessor p.preprocessors = (.ok pre, pool₁))
    (hfilters : pool₁.chain .filter p.filters = (.ok filters, pool₂)) :
    runPlan env p x =
      let ended := Filter.chain env pre (runSecured env p filters) (entry p x pool₂)
      handleErrors env p (failureOf ended.1) ended.2 := by
  simp only [runPlan, Exchange.setRequest, hpre, hfilters]
  split <;> rename_i z hz
  · exact congrArg (fun r => handleErrors env p (failureOf r.1) r.2) hz.symm
  · exact congrArg (fun r => handleErrors env p (failureOf r.1) r.2) hz.symm

/-- The exchange that the preprocessors of a plan pass on, if all of them do. -/
def arrival (p : Plan) (x : Exchange) : Option Exchange :=
  match x.pool.chain .preprocessor p.preprocessors with
  | (.error _, _) => none
  | (.ok preprocessors, pool) =>
    match pool.chain .filter p.filters with
    | (.error _, _) => none
    | (.ok _, pool) => preprocessors.passed env (entry p x pool)

section Found

variable {pre filters : Filter.Chain} {x : Exchange} {pool₁ pool₂ : Pool}
  (hpre : x.pool.chain .preprocessor p.preprocessors = (.ok pre, pool₁))
  (hfilters : pool₁.chain .filter p.filters = (.ok filters, pool₂))

include hpre hfilters

theorem arrival_eq : arrival env p x = pre.passed env (entry p x pool₂) := by
  simp only [arrival, hpre, hfilters]

/-- The calls of a plan whose preprocessors and filters were found: the preprocessors, then those of
security and what it protects, if the request arrives there, and then perhaps an error page. -/
theorem calls_runPlan : ∃ page, (runPlan env p x).2.calls = x.calls ++ pre.around [] ++
    (arrival env p x).elim [] (secured env p filters) ++ pageCalls page := by
  obtain ⟨ended, hended⟩ : ∃ ended, ended =
      Filter.chain env pre (runSecured env p filters) (entry p x pool₂) := ⟨_, rfl⟩
  have hrun : runPlan env p x = handleErrors env p (failureOf ended.1) ended.2 := by
    rw [hended, runPlan_eq env hpre hfilters]
  have herrors : (runPlan env p x).2.calls =
      ended.2.calls ++ pageCalls (pageFor p (failureOf ended.1) ended.2.response) := by
    rw [hrun]
    exact congrArg Prod.fst (record_handleErrors env p (failureOf ended.1) ended.2)
  have hentry : (entry p x pool₂).calls = x.calls := rfl
  refine ⟨_, herrors.trans (congrArg (· ++ _) ?_)⟩
  rw [hended, Filter.calls_chain, hentry, arrival_eq env hpre hfilters]
  cases hy : pre.passed env (entry p x pool₂) with
  | none => simp
  | some y => simp [calls_runSecured, Filter.Chain.calls_passed env hy, hentry]

end Found

def received (q : Incoming) (given : Pool) : Exchange :=
  { request := { toIncoming := q }, pool := given }

theorem execute_eq {t : Table} {q : Incoming} (hp : t.compose env.files q.uri.path = some p) (given : Pool) :
    execute env t q given = runPlan env p (received q given) := by
  simp only [execute, hp]
  rfl

end Dispatch

end ServletContainer
