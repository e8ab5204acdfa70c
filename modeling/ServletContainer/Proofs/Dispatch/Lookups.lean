import ServletContainer.Proofs.Dispatch.Selection
import ServletContainer.Proofs.Dispatch.Calls
import ServletContainer.Proofs.Element.Lookups

/-! The look-ups of a request. Filters are looked up before anything is called, up to the first that cannot
be found; the target is looked up when it is called, and the servlet of an error page likewise. Nothing else
touches the pool (`Dispatch.pool_execute`). -/
namespace ServletContainer

open Pool

def Element.lookup? (e : Element) : Option Act := e.details.source?.map (.find e.id)

def Pool.chainActs (p : Pool) : List Element → List Act
  | [] => []
  | e :: es =>
    match e.details with
    | .filter source _ _ =>
      .find e.id (.filter source) ::
        match p.filter e.id source with
        | (.error _, _) => []
        | (.ok _, p) => p.chainActs es
    | _ => p.chainActs es

def ActiveServlet.acts (s : ActiveServlet) : List Act :=
  match s.element.details with
  | .servlet source => [.find s.element.id (.servlet source)]
  | _ => []

def Target.acts : Target → List Act
  | .servlet s _ => s.acts
  | _ => []

def Plan.asked (p : Plan) : Call → List Act
  | .target => p.target.acts
  | _ => []

theorem Pool.pool_chain (p : Pool) (call : ElementId → Call) (es : List Element) :
    (p.chain call es).2 = p.play (p.chainActs es) := by
  induction es generalizing p with
  | nil => rfl
  | cons e es ih =>
    cases hd : e.details with
    | filter source names preprocessor =>
      have hfind : (p.find e.id (.filter source)).2 = (p.filter e.id source).2 := rfl
      simp only [chain, chainActs, hd]
      rcases hfound : p.filter e.id source with ⟨err | i, q⟩ <;> rw [hfound] at hfind
      · exact hfind.symm
      · simp only [ih]
        exact congrArg (·.play (q.chainActs es)) hfind.symm
    | _ =>
      simp only [chain, chainActs, hd]
      exact ih p

namespace Dispatch

variable (env : Surroundings) {p : Plan}

theorem pool_invoke (s : ActiveServlet) (x : Exchange) : (invoke env s x).2.pool = x.pool.play s.acts := by
  cases hd : s.element.details with
  | servlet source =>
    simp only [invoke, ActiveServlet.acts, hd]
    split <;> rename_i hfound
    · rw [Servlet.steady_service env (steady_pool env)]
      exact (congrArg Prod.snd hfound).symm
    · exact (congrArg Prod.snd hfound).symm
  | resource folder =>
    simp only [invoke, ActiveServlet.acts, hd]
    exact Resource.steady_service env (steady_pool env) _ _
  | _ =>
    simp only [invoke, ActiveServlet.acts, hd]
    rfl

theorem pool_runTarget (p : Plan) (x : Exchange) :
    (runTarget env p x).2.pool = x.pool.play p.target.acts := by
  unfold runTarget
  split <;> rename_i htarget <;> rw [htarget]
  · exact pool_invoke env _ _
  · rfl
  · rfl

variable {filters : Filter.Chain} {x y z : Exchange}

/-- On the way from one exchange to another some calls were made, and what these ask for was looked up. -/
def Accounts (p : Plan) (x y : Exchange) : Prop :=
  ∃ cs, y.calls = x.calls ++ cs ∧ y.pool = x.pool.play (cs.flatMap p.asked)

theorem Accounts.trans (h : Accounts p x y) (h' : Accounts p y z) : Accounts p x z := by
  obtain ⟨cs, hcalls, hpool⟩ := h
  obtain ⟨cs', hcalls', hpool'⟩ := h'
  refine ⟨cs ++ cs', by rw [hcalls', hcalls, List.append_assoc], ?_⟩
  rw [hpool', hpool, List.flatMap_append, play_append]

theorem accounts_of_eq (p : Plan) (hcalls : y.calls = x.calls) (hpool : y.pool = x.pool) :
    Accounts p x y :=
  ⟨[], by rw [hcalls, List.append_nil], hpool⟩

theorem accounts_calls (cs : List Call) (hcs : ∀ c ∈ cs, c ≠ .target) (hcalls : y.calls = x.calls ++ cs)
    (hpool : y.pool = x.pool) : Accounts p x y := by
  refine ⟨cs, hcalls, ?_⟩
  have hnothing : cs.flatMap p.asked = [] := List.flatMap_eq_nil_iff.2 fun c hc => by
    have hc := hcs c hc
    cases c <;> first | rfl | exact absurd rfl hc
  rw [hnothing, hpool]
  rfl

theorem accounts_chain {fs : Filter.Chain} (hfs : IsBefore fs) {last : Handler}
    (hlast : ∀ y, Accounts p y (last y).2) (x : Exchange) : Accounts p x (Filter.chain env fs last x).2 := by
  have hcalls := Filter.calls_chain env fs last x
  have hpool := Filter.part_chain env (steady_pool env) (fun _ _ => rfl) fs last x
  have hbefore : ∀ c ∈ fs.around [], c ≠ .target := fun c hc => by
    obtain ⟨f, hf, rfl⟩ := List.mem_map.1 (fs.around_prefix.subset hc)
    exact hfs f hf
  cases hy : fs.passed env x with
  | none =>
    rw [hy] at hcalls hpool
    exact accounts_calls _ hbefore hcalls hpool
  | some y =>
    rw [hy] at hcalls hpool
    have hxy : Accounts p x y := accounts_calls _ hbefore (Filter.Chain.calls_passed env hy)
      (Filter.Chain.steady_passed env (steady_pool env) (fun _ _ => rfl) hy)
    obtain ⟨cs, hcalls', hpool'⟩ := hxy.trans (hlast y)
    exact ⟨cs, hcalls.trans hcalls', hpool.trans hpool'⟩

theorem accounts_protected (hfilters : IsBefore filters) (p : Plan) (x : Exchange) : Accounts p x
    (Filter.chain env filters (runTarget env p) x).2 := by
  refine accounts_chain env hfilters (fun y => ⟨[.target], ?_, ?_⟩) x
  · exact congrArg Prod.fst (record_runTarget env p y)
  · rw [List.flatMap_singleton]
    exact pool_runTarget env p y

theorem accounts_guarded (hfilters : IsBefore filters) (p : Plan) (x : Exchange) :
    Accounts p x (guarded env p filters x).2 := by
  unfold guarded
  cases p.view with
  | none => exact accounts_protected env hfilters p x
  | some c =>
    have hsecurity : Accounts p x (c.helper.handleSecurity env (x.called .security)).2 :=
      accounts_calls [.security] (by simp)
        ((congrArg Prod.fst (c.helper.record_handleSecurity env (x.called .security))).trans
          (x.calls_called .security))
        (c.helper.steady_handleSecurity env (steady_pool env) (x.called .security))
    simp only
    split
    · rename_i y hy
      rw [hy] at hsecurity
      exact hsecurity.trans (accounts_protected env hfilters p y)
    · exact hsecurity

theorem accounts_finish (p : Plan) (x : Exchange) : Accounts p x (finish env p x).2 := by
  unfold finish
  cases p.view with
  | none => exact accounts_of_eq p rfl rfl
  | some c =>
    exact accounts_calls [.finish] (by simp)
      (((c.helper.discreet_finishSecurity env).quiet (x.called .finish)).trans (x.calls_called .finish))
      (c.helper.steady_finishSecurity env (steady_pool env) (x.called .finish))

theorem accounts_conclude (p : Plan) (r : Except Fault Bool) (x : Exchange) :
    Accounts p x (conclude r x).2 := by
  refine accounts_of_eq p (quiet_conclude r x) ?_
  unfold conclude
  split
  · rfl
  · simp only
    split <;> rfl
  · rfl

theorem accounts_runSecured (hfilters : IsBefore filters) (p : Plan) (x : Exchange) :
    Accounts p x (runSecured env p filters x).2 := by
  unfold runSecured
  split
  · exact accounts_of_eq p rfl rfl
  · have hfinished := (accounts_guarded env hfilters p x).trans (accounts_finish env p _)
    simp only [Handler.andThen]
    split <;> rename_i hy <;> rw [hy] at hfinished
    · exact hfinished.trans (accounts_conclude p _ _)
    · exact hfinished

theorem pool_handleErrors (p : Plan) (failure : Option ServletError) (x : Exchange) :
    (handleErrors env p failure x).2.pool =
      x.pool.play ((pageFor p failure x.response).elim [] ActiveServlet.acts) := by
  unfold handleErrors pageFor
  split
  · rename_i hs
    rw [hs]
    rfl
  · rename_i status hs
    rw [hs, Option.bind_some]
    split <;> rename_i hpage <;> rw [hpage]
    · rfl
    · simp only [forward]
      split <;> rename_i hy <;> exact (congrArg (·.2.pool) hy).symm.trans (pool_invoke env _ _)

/-- The look-ups of a plan: preprocessors and filters, as long as they are found, then what is asked for by
those who are called, and then the servlet of an error page. -/
def acts (p : Plan) (x : Exchange) : List Act :=
  x.pool.chainActs p.preprocessors ++
    match x.pool.chain .preprocessor p.preprocessors with
    | (.error _, _) => []
    | (.ok pre, pool) =>
      pool.chainActs p.filters ++
        match pool.chain .filter p.filters with
        | (.error _, _) => []
        | (.ok filters, pool) =>
          let ended := Filter.chain env pre (runSecured env p filters) (entry p x pool)
          ended.2.calls.flatMap p.asked ++
            (pageFor p (failureOf ended.1) ended.2.response).elim [] ActiveServlet.acts

theorem pool_runPlan (p : Plan) {x : Exchange} (hx : x.calls = []) :
    (runPlan env p x).2.pool = x.pool.play (acts env p x) := by
  have hprepool := x.pool.pool_chain .preprocessor p.preprocessors
  rcases hpre : x.pool.chain .preprocessor p.preprocessors with ⟨e | pre, pool₁⟩ <;> rw [hpre] at hprepool
  · simp only [runPlan, acts, Exchange.setRequest, hpre, List.append_nil]
    exact hprepool
  · have hfilterpool := pool₁.pool_chain .filter p.filters
    rcases hfilters : pool₁.chain .filter p.filters with ⟨e | filters, pool₂⟩ <;>
      rw [hfilters] at hfilterpool
    · simp only [runPlan, acts, Exchange.setRequest, hpre, hfilters, List.append_nil, play_append,
        ← hprepool]
      exact hfilterpool
    · obtain ⟨cs, hcalls, hpool⟩ := accounts_chain env (isBefore_of_chain hpre (by simp))
        (accounts_runSecured env (isBefore_of_chain hfilters (by simp)) p) (entry p x pool₂)
      have hcalls : _ = cs := hcalls.trans (by rw [show (entry p x pool₂).calls = [] from hx]; rfl)
      rw [runPlan_eq env hpre hfilters, pool_handleErrors, hpool, ← hcalls]
      simp only [acts, hpre, hfilters, play_append, ← hprepool]
      rw [← show pool₂ = pool₁.play (pool₁.chainActs p.filters) from hfilterpool]
      rfl

def requestActs (t : Table) (q : Incoming) (given : Pool) : List Act :=
  (t.compose env.files q.uri.path).elim [] fun p =>
    acts env p { request := { toIncoming := q }, pool := given }

theorem pool_execute (t : Table) (q : Incoming) (given : Pool) :
    (execute env t q given).2.pool = given.play (requestActs env t q given) := by
  unfold execute requestActs
  split <;> rename_i hp <;> rw [hp]
  · rfl
  · exact pool_runPlan env _ rfl

section Deployed

variable {env} {d : Deployment} {t : Table} {q : Incoming} {given : Pool} {a : Act}

theorem mem_chainActs {pool : Pool} {es : List Element} (h : a ∈ pool.chainActs es) :
    ∃ e ∈ es, e.lookup? = some a := by
  induction es generalizing pool with
  | nil => cases h
  | cons e es ih =>
    have htail {pool : Pool} (h : a ∈ pool.chainActs es) : ∃ e' ∈ e :: es, e'.lookup? = some a := by
      obtain ⟨e', he', ha⟩ := ih h
      exact ⟨e', List.mem_cons_of_mem e he', ha⟩
    cases hd : e.details with
    | filter source names preprocessor =>
      simp only [chainActs, hd] at h
      rcases List.mem_cons.1 h with rfl | h
      · exact ⟨e, List.mem_cons_self, by rw [Element.lookup?, hd]; rfl⟩
      · split at h
        · cases h
        · exact htail h
    | _ =>
      simp only [chainActs, hd] at h
      exact htail h

theorem lookup_of_mem_acts {s : ActiveServlet} (h : a ∈ s.acts) : s.element.lookup? = some a := by
  unfold ActiveServlet.acts at h
  split at h
  · rename_i hd
    rw [List.mem_singleton.1 h, Element.lookup?, hd]
    rfl
  · cases h

theorem mem_acts {x : Exchange} (htarget : p.target.From p.mount.servlets) (h : a ∈ acts env p x) :
    ∃ e, (e ∈ p.preprocessors ∨ e ∈ p.filters ∨ ∃ s ∈ p.mount.servlets, s.element = e) ∧
      e.lookup? = some a := by
  rcases List.mem_append.1 h with h | h
  · obtain ⟨e, he, ha⟩ := mem_chainActs h
    exact ⟨e, .inl he, ha⟩
  split at h
  · cases h
  rcases List.mem_append.1 h with h | h
  · obtain ⟨e, he, ha⟩ := mem_chainActs h
    exact ⟨e, .inr (.inl he), ha⟩
  split at h
  · cases h
  suffices hserved : ∃ s ∈ p.mount.servlets, a ∈ s.acts by
    obtain ⟨s, hs, ha⟩ := hserved
    exact ⟨s.element, .inr (.inr ⟨s, hs, rfl⟩), lookup_of_mem_acts ha⟩
  rcases List.mem_append.1 h with h | h
  · obtain ⟨c, _, hc⟩ := List.mem_flatMap.1 h
    cases c with
    | target =>
      simp only [Plan.asked, Target.acts] at hc
      split at hc
      · rename_i s pm hp
        rw [hp] at htarget
        exact ⟨s, htarget, hc⟩
      · cases hc
    | _ => cases hc
  · cases hpage : pageFor p (failureOf _) _ with
    | none =>
      rw [hpage] at h
      cases h
    | some s =>
      rw [hpage] at h
      obtain ⟨page, hfound, rfl⟩ := Option.map_eq_some_iff.1 hpage
      obtain ⟨_, _, hfound⟩ := Option.bind_eq_some_iff.1 hfound
      obtain ⟨_, _, hselect⟩ := Option.bind_eq_some_iff.1 hfound
      exact ⟨page.1, (Mount.select_eq_some hselect).1, h⟩

/-- Only what is deployed is looked up. -/
theorem mem_requestActs (h : a ∈ requestActs env d.table q given) :
    ∃ e ∈ d.elementList, e.lookup? = some a := by
  cases hp : d.table.compose env.files q.uri.path with
  | none =>
    rw [requestActs, hp] at h
    cases h
  | some p =>
    rw [requestActs, hp] at h
    obtain ⟨path, relative, hplan⟩ := Deployment.compose_eq_some hp
    have hmount : p.mount = d.mountAt path := by rw [hplan]; rfl
    have htarget : p.target.From p.mount.servlets := by
      rw [hplan]
      exact (d.mountAt path).target_from env.files relative
    have henabled {e : Element} (he : e ∈ d.enabledAt path) : e ∈ d.elementList :=
      (d.enabledAt_sublist path).subset (Element.mem_inOrder.1 he)
    obtain ⟨e, he, ha⟩ := mem_acts htarget h
    refine ⟨e, ?_, ha⟩
    rcases he with he | he | ⟨s, hs, rfl⟩
    · have he : e ∈ d.preprocessors := by rwa [hplan] at he
      exact (List.mem_filter.1 (Element.mem_inOrder.1 he)).1
    · rw [hplan] at he
      exact henabled (List.mem_filter.1 ((Deployment.filters_sublist path).subset he)).1
    · rw [hmount] at hs
      exact henabled (Deployment.mem_servlets_mountAt.1 hs).1

end Deployed

end Dispatch

end ServletContainer
