import ServletContainer.Proofs.Dispatch.Calls

/-! Where those who are called find the request. No script points it elsewhere, so everybody before the
target finds it where the preprocessors do, and the target where its match points
(`Dispatch.pointed_execute`). The trace only grows, and the call of security stays in it with the request
that the preprocessors passed on (`Dispatch.security_mem_trace`). -/
namespace ServletContainer

/-- Where a request is pointed: what was asked for, and the paths resolved for it. -/
def Request.route (q : Request) : Uri × String × String × Option String :=
  (q.uri, q.contextPath, q.servletPath, q.pathInfo)

/-- Where the preprocessors of a plan find the request. -/
def Plan.route (p : Plan) (uri : Uri) : Uri × String × String × Option String :=
  (uri, p.mount.path.lead, p.relative, none)

variable (env : Surroundings)

theorem steady_route : Steady env fun x => x.request.route :=
  .of_parts env (fun _ _ => rfl) (fun _ _ => rfl) fun _ _ _ => rfl

namespace Dispatch

/-- Where those who are called for a plan find the request: before the target where the preprocessors do,
and the target where its match points. Of the end of security and an error page nothing is said. -/
inductive Pointed (p : Plan) (uri : Uri) : Call × Request → Prop
  | before {c : Call} {r : Request} (hc : c ≠ .target) (h : r.route = p.route uri) : Pointed p uri (c, r)
  | target {r : Request} (h : ∀ s m, p.target = .servlet s m →
      r.route = (uri, p.mount.path.lead, m.servletPath, m.pathInfo)) : Pointed p uri (.target, r)
  | finish (r : Request) : Pointed p uri (.finish, r)
  | errorPage (id : ElementId) (r : Request) : Pointed p uri (.errorPage id, r)

variable {p : Plan} {uri : Uri} {filters : Filter.Chain} {x y z : Exchange}

/-- On the way from one exchange to another only calls were made that find the request where they should. -/
def Notes (p : Plan) (uri : Uri) (x y : Exchange) : Prop :=
  ∃ es, y.trace = x.trace ++ es ∧ ∀ e ∈ es, Pointed p uri e

theorem Notes.trans (h : Notes p uri x y) (h' : Notes p uri y z) : Notes p uri x z := by
  obtain ⟨es, hes, hpointed⟩ := h
  obtain ⟨es', hes', hpointed'⟩ := h'
  exact ⟨es ++ es', by rw [hes', hes, List.append_assoc],
    List.forall_mem_append.2 ⟨hpointed, hpointed'⟩⟩

theorem notes_of_eq (h : y.trace = x.trace) : Notes p uri x y :=
  ⟨[], by rw [h, List.append_nil], by simp⟩

theorem notes_called {c : Call} (h : Pointed p uri (c, x.request)) (hy : y.trace = (x.called c).trace) :
    Notes p uri x y :=
  ⟨[(c, x.request)], hy, List.forall_mem_singleton.2 h⟩

theorem notes_chain {fs : Filter.Chain} {last : Handler} (hfs : IsBefore fs)
    (hlast : ∀ y, y.request.route = p.route uri → Notes p uri y (last y).2)
    (hx : x.request.route = p.route uri) : Notes p uri x (Filter.chain env fs last x).2 := by
  induction fs generalizing x with
  | nil => exact hlast x hx
  | cons f fs ih =>
    obtain ⟨hf, hfs⟩ := List.forall_mem_cons.1 hfs
    have hcalled : Notes p uri x (x.called f.1) := notes_called (.before hf hx) rfl
    have htrace : (Filter.chain env (f :: fs) last x).2.trace = _ :=
      Filter.part_handle env (steady_trace env) f.2 fs.length (Filter.chain env fs last) (x.called f.1)
    refine hcalled.trans ?_
    cases hz : Filter.passed env f.2 fs.length (x.called f.1) with
    | none =>
      rw [hz] at htrace
      exact notes_of_eq htrace
    | some z =>
      rw [hz] at htrace
      have hpassed : Notes p uri (x.called f.1) z :=
        notes_of_eq (Filter.steady_passed env (steady_trace env) hz)
      have hroute : z.request.route = p.route uri :=
        (Filter.steady_passed env (steady_route env) hz).trans hx
      exact (hpassed.trans (ih hfs hroute)).trans (notes_of_eq htrace)

theorem notes_runTarget (hx : x.request.route = p.route uri) :
    Notes p uri x (runTarget env p x).2 := by
  unfold runTarget
  split
  · rename_i s m htarget
    refine notes_called (x := Plan.aim p m x) (.target fun s' m' htarget' => ?_)
      (steady_invoke env (steady_trace env) (fun _ _ => rfl) (fun _ _ => rfl) ..)
    cases htarget.symm.trans htarget'
    exact congrArg (·, p.mount.path.lead, m.servletPath, m.pathInfo) (congrArg Prod.fst hx)
  · rename_i htarget
    exact notes_called (.target fun s m h => nomatch htarget.symm.trans h) rfl
  · rename_i htarget
    exact notes_called (.target fun s m h => nomatch htarget.symm.trans h) rfl

theorem notes_admitted {c : LogicalContext} (hview : p.view = some c) (hfilters : IsBefore filters)
    (hx : x.request.route = p.route uri) :
    Notes p uri (c.helper.handleSecurity env (x.called .security)).2 (guarded env p filters x).2 := by
  have hroute := c.helper.steady_handleSecurity env (steady_route env) (x.called .security)
  simp only [guarded, hview]
  split
  · rename_i y hy
    rw [hy] at hroute ⊢
    exact notes_chain env hfilters (fun _ => notes_runTarget env) (hroute.trans hx)
  · exact notes_of_eq rfl

theorem notes_guarded (hfilters : IsBefore filters) (hx : x.request.route = p.route uri) :
    Notes p uri x (guarded env p filters x).2 := by
  cases hview : p.view with
  | none =>
    simp only [guarded, hview]
    exact notes_chain env hfilters (fun _ => notes_runTarget env) hx
  | some c =>
    have hsecurity : Notes p uri x (c.helper.handleSecurity env (x.called .security)).2 :=
      notes_called (c := .security) (.before (by decide) hx) (c.helper.steady_handleSecurity env (steady_trace env) _)
    exact hsecurity.trans (notes_admitted env hview hfilters hx)

theorem notes_finish (p : Plan) (uri : Uri) (x : Exchange) : Notes p uri x (finish env p x).2 := by
  unfold finish
  cases p.view with
  | none => exact notes_of_eq rfl
  | some c =>
    exact notes_called (.finish _) (c.helper.steady_finishSecurity env (steady_trace env) (x.called .finish))

theorem trace_conclude (r : Except Fault Bool) (x : Exchange) : (conclude r x).2.trace = x.trace := by
  unfold conclude
  split
  · rfl
  · simp only
    split <;> rfl
  · rfl

theorem notes_concluded (filters : Filter.Chain) (uri : Uri) (x : Exchange) (hp : p.isEmpty = false) :
    Notes p uri (guarded env p filters x).2 (runSecured env p filters x).2 := by
  have hfinish := notes_finish env p uri (guarded env p filters x).2
  simp only [runSecured, hp, Bool.false_eq_true, if_false, Handler.andThen]
  split <;> rename_i hy <;> rw [hy] at hfinish
  · exact hfinish.trans (notes_of_eq (trace_conclude ..))
  · exact hfinish

theorem notes_runSecured (hfilters : IsBefore filters) (hx : x.request.route = p.route uri) :
    Notes p uri x (runSecured env p filters x).2 := by
  cases hp : p.isEmpty with
  | true =>
    simp only [runSecured, hp, if_true]
    exact notes_of_eq rfl
  | false => exact (notes_guarded env hfilters hx).trans (notes_concluded env filters uri x hp)

theorem notes_handleErrors (p : Plan) (uri : Uri) (failure : Option ServletError) (x : Exchange) :
    Notes p uri x (handleErrors env p failure x).2 := by
  unfold handleErrors
  split
  · exact notes_of_eq rfl
  · split
    · exact notes_of_eq rfl
    · rename_i page _
      have hpage {y z : Exchange} {r : Except Fault Unit}
          (hz : invoke env page.1 (y.called (.errorPage page.1.element.id)) = (r, z))
          (hy : y.trace = x.trace) : Notes p uri x z := by
        have htrace := steady_invoke env (steady_trace env) (fun _ _ => rfl) (fun _ _ => rfl) page.1
          (y.called (.errorPage page.1.element.id))
        rw [hz] at htrace
        exact (notes_of_eq hy).trans (notes_called (.errorPage _ _) htrace)
      simp only [forward]
      split <;> rename_i hy
      · exact (hpage hy rfl).trans (notes_of_eq rfl)
      · exact hpage hy rfl
      · exact hpage hy rfl

section Found

variable {pre : Filter.Chain} {pool₁ pool₂ : Pool}
  (hpre : x.pool.chain .preprocessor p.preprocessors = (.ok pre, pool₁))
  (hfilters : pool₁.chain .filter p.filters = (.ok filters, pool₂))

include hpre hfilters

theorem notes_runPlan : Notes p x.request.uri x (runPlan env p x).2 := by
  have hentry : (entry p x pool₂).request.route = p.route x.request.uri := rfl
  have hchain := notes_chain env (isBefore_of_chain hpre nofun)
    (fun _ => notes_runSecured env (isBefore_of_chain hfilters nofun)) hentry
  rw [runPlan_eq env hpre hfilters]
  exact (notes_of_eq rfl).trans (hchain.trans (notes_handleErrors ..))

end Found

theorem pointed_execute {t : Table} {q : Incoming} (hp : t.compose env.files q.uri.path = some p)
    (given : Pool) : ∀ e ∈ (execute env t q given).2.trace, Pointed p q.uri e := by
  rw [execute_eq env hp]
  rcases hpre : given.chain .preprocessor p.preprocessors with ⟨e | pre, pool₁⟩
  · simp [runPlan, received, Exchange.setRequest, hpre]
  · rcases hfilters : pool₁.chain .filter p.filters with ⟨e | filters, pool₂⟩
    · simp [runPlan, received, Exchange.setRequest, hpre, hfilters]
    · obtain ⟨es, hes, hpointed⟩ := notes_runPlan env (x := received q given) hpre hfilters
      rw [hes]
      exact hpointed

end Dispatch

end ServletContainer
