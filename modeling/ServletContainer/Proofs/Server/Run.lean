import ServletContainer.Proofs.Deployment.Commit
import ServletContainer.Server.Basic

/-! Runs of a server. Whatever happens to a server, its deployment stays what it was or is followed
by that of a committed batch (`deployment_step`), so that what committed batches preserve holds in
every state of a run (`run_induction`). -/
namespace ServletContainer

theorem foldl_prefix_induction {α : Type u} {σ : Type v} {f : σ → α → σ} {P : σ → Prop} {x : σ}
    {steps : List α} (hx : P x)
    (h : ∀ as a, as ++ [a] <+: steps → P (as.foldl f x) → P (f (as.foldl f x) a)) :
    ∀ as, as <+: steps → P (as.foldl f x) := by
  intro as
  induction as using List.reverseRecOn with
  | nil => exact fun _ => hx
  | append_singleton as a ih =>
    intro has
    rw [List.foldl_append, List.foldl_cons, List.foldl_nil]
    exact h as a has (ih ((List.prefix_append as [a]).trans has))

/-- What happens to a server. -/
inductive Server.Step where
  | start
  | stop
  | submit (b : Batch)
  /-- Requests served, elements built and classes registered, and all that befalls the engine. -/
  | elsewhere (engine : Engine) (pool : Pool) (counters : Counters) (nextService : Nat)

namespace Server

variable {s t : Server} {b : Batch} {r : Report}

def step (s : Server) : Step → Server
  | .start => s.start.2
  | .stop => s.stop.2
  | .submit b => (s.submit b).2
  | .elsewhere engine pool counters nextService => { s with engine, pool, counters, nextService }

def run (s : Server) (steps : List Step) : Server := steps.foldl step s

theorem submit_ok (h : s.submit b = (.ok r, t)) :
    s.deployment.Commits b.changes t.deployment := by
  unfold submit at h
  split at h
  · cases h
  · rename_i changed hc
    simp only at h
    split at h
    · cases h
    · cases h
      exact ⟨changed, hc, rfl⟩

theorem effects_submit (h : s.submit b = (.ok r, t)) :
    r.effects = s.deployment.effects t.deployment (Change.refreshed b.changes) := by
  unfold submit at h
  split at h
  · cases h
  · simp only at h
    split at h <;> cases h
    rfl

theorem submit_error {e : BatchError} (h : s.submit b = (.error e, t)) :
    t.deployment = s.deployment := by
  unfold submit at h
  split at h
  · cases h
    rfl
  · simp only at h
    split at h <;> cases h
    rfl

theorem deployment_submit (s : Server) (b : Batch) :
    (s.submit b).2.deployment = s.deployment ∨
      s.deployment.Commits b.changes (s.submit b).2.deployment := by
  cases h : s.submit b with
  | mk result t =>
    cases result with
    | error e => exact .inl (submit_error h)
    | ok r => exact .inr (submit_ok h)

theorem submit_frame (s : Server) (b : Batch) :
    (s.submit b).2 =
      { s with
        engine := (s.submit b).2.engine
        deployment := (s.submit b).2.deployment
        pool := (s.submit b).2.pool
        notices := (s.submit b).2.notices } := by
  unfold submit
  split
  · rfl
  · simp only
    split <;> rfl

theorem deployment_bootstrap (s : Server) : s.bootstrap.2.deployment = s.deployment ∨
    ∃ c, s.deployment.Commits [.addContext c] s.bootstrap.2.deployment := by
  unfold bootstrap
  split
  · exact .inl rfl
  · rename_i c counters _
    have h := deployment_submit { s with counters } ⟨"bootstrap", [.addContext c]⟩
    split <;> rename_i hsub <;> rw [hsub] at h <;> exact h.imp_right fun h => ⟨c, h⟩

theorem deployment_launch (s : Server) : s.launch.2.deployment = s.deployment ∨
    ∃ c, s.deployment.Commits [.addContext c] s.launch.2.deployment := by
  unfold launch
  split
  · exact .inl rfl
  · split
    · exact .inl rfl
    · exact deployment_bootstrap _

theorem deployment_start (s : Server) : s.start.2.deployment = s.deployment ∨
    ∃ c, s.deployment.Commits [.addContext c] s.start.2.deployment := by
  have hlaunch := s.deployment_launch
  unfold start
  split
  · exact .inl rfl
  · split
    · rename_i h
      rw [h] at hlaunch
      exact hlaunch
    · exact hlaunch

/-- What holds at every stage of starting a server holds of the server that comes of it. -/
theorem start_preserves {P : Server → Prop}
    (hconfigure : ∀ s engine, P s → s.engine.configure s.config.engine = .ok engine →
      P { s with engine })
    (hstart : ∀ s engine, P s → s.engine.start = .ok engine → P { s with engine })
    (hcount : ∀ s counters, P s → counters.element = s.counters.element → P { s with counters })
    (hsubmit : ∀ s b, P s → (∃ c, b.changes = [.addContext c]) → P (s.submit b).2)
    (hstarted : ∀ s, P s → P { s with started := true }) (hs : P s) : P s.start.2 := by
  have hbootstrap (s : Server) (hs : P s) : P s.bootstrap.2 := by
    have helement : (s.counters.newContext s.config.defaultContext s.config.defaultContextPath).2.element =
        s.counters.element := by
      unfold Counters.newContext
      split <;> rfl
    unfold bootstrap
    split <;> rename_i hcontext <;> rw [hcontext] at helement
    · exact hcount s _ hs helement
    · rename_i c counters
      have hbound := hsubmit _ ⟨"bootstrap", [.addContext c]⟩ (hcount s counters hs helement) ⟨c, rfl⟩
      split <;> rename_i heq <;> rw [heq] at hbound <;> exact hbound
  have hlaunch : P s.launch.2 := by
    unfold launch
    split
    · exact hs
    · rename_i configured hconfigured
      have hprepared := hconfigure s configured hs hconfigured
      split
      · exact hprepared
      · rename_i running hrunning
        exact hbootstrap _ (hstart { s with engine := configured } running hprepared hrunning)
  unfold start
  split
  · exact hs
  · split
    · rename_i heq
      rw [heq] at hlaunch
      exact hstarted _ hlaunch
    · exact hlaunch

theorem stop_of_not_started (h : ¬ s.started) : s.stop = (.ok (), s) := if_neg h

/-- What stopping a started server comes to: the engine may refuse that everything is withdrawn, and if
it does not, it may still fail to stop. -/
theorem stop_of_started (h : s.started) :
    (∃ e t, s.submit (shutdown s.deployment) = (.error e, t) ∧ s.stop = (.error (.batch e), t)) ∨
    ∃ r t, s.submit (shutdown s.deployment) = (.ok r, t) ∧
      ((∃ e, t.engine.stop = .error e ∧ s.stop = (.error (.engine e), t)) ∨
        ∃ engine, t.engine.stop = .ok engine ∧
          s.stop = (.ok (), { t with engine, started := false })) := by
  rw [stop, if_pos h, halt]
  rcases s.submit (shutdown s.deployment) with ⟨e | r, t⟩
  · exact .inl ⟨e, t, rfl, rfl⟩
  · refine .inr ⟨r, t, rfl, ?_⟩
    cases hengine : t.engine.stop with
    | error e => exact .inl ⟨e, rfl, by simp only [hengine]⟩
    | ok engine => exact .inr ⟨engine, rfl, by simp only [hengine]⟩

/-- What holds of a server from which everything is withdrawn, and then with its engine stopped, holds
of the server that comes of stopping it. -/
theorem stop_preserves {P : Server → Prop} (hsubmit : P (s.submit (shutdown s.deployment)).2)
    (hengine : ∀ t engine, P t → t.engine.stop = .ok engine →
      P { t with engine, started := false }) (hs : P s) : P s.stop.2 := by
  by_cases h : s.started
  · obtain ⟨e, t, heq, hstop⟩ | ⟨r, t, heq, ⟨e, _, hstop⟩ | ⟨engine, hnext, hstop⟩⟩ :=
      stop_of_started h <;> rw [heq] at hsubmit <;> rw [hstop]
    · exact hsubmit
    · exact hsubmit
    · exact hengine t engine hsubmit hnext
  · rw [stop_of_not_started h]
    exact hs

theorem deployment_stop_of_started (h : s.started) :
    s.stop.2.deployment = (s.submit (shutdown s.deployment)).2.deployment := by
  obtain ⟨_, _, heq, hstop⟩ | ⟨_, _, heq, ⟨_, _, hstop⟩ | ⟨_, _, hstop⟩⟩ := stop_of_started h <;>
    rw [hstop, heq]

theorem deployment_stop (s : Server) : s.stop.2.deployment = s.deployment ∨
    s.deployment.Commits (shutdown s.deployment).changes s.stop.2.deployment := by
  by_cases h : s.started
  · rw [deployment_stop_of_started h]
    exact s.deployment_submit _
  · rw [stop_of_not_started h]
    exact .inl rfl

theorem deployment_step (s : Server) (a : Step) : (s.step a).deployment = s.deployment ∨
    ∃ cs, ((∀ e, .addElement e ∉ cs) ∨ ∃ b, a = .submit b ∧ b.changes = cs) ∧
      s.deployment.Commits cs (s.step a).deployment := by
  cases a with
  | start =>
    exact s.deployment_start.imp_right fun ⟨c, h⟩ => ⟨[.addContext c], .inl (by simp), h⟩
  | stop => exact s.deployment_stop.imp_right fun h => ⟨_, .inl (by simp [shutdown]), h⟩
  | submit b => exact (s.deployment_submit b).imp_right fun h => ⟨b.changes, .inr ⟨b, rfl, rfl⟩, h⟩
  | elsewhere => exact .inl rfl

def vacant (policy : Policy) (context : ContextId) : Deployment := ⟨policy, context, {}, ∅, ∅, 1⟩

/-- What holds of the empty deployment and is preserved by those committed batches that are allowed
holds after every run in which only such batches are submitted; all that add no elements have to be
allowed. -/
theorem run_induction {P : Deployment → Prop} {A : List Change → Prop}
    (hnew : ∀ policy context, P (vacant policy context))
    (hallowed : ∀ cs, (∀ e, .addElement e ∉ cs) → A cs)
    (hcommit : ∀ d cs d', A cs → P d → d.Commits cs d' → P d')
    (config : ServerConfig) (engine : Engine) (pool : Pool) {steps : List Step}
    (hsteps : ∀ b, .submit b ∈ steps → A b.changes) :
    P ((new config engine pool).run steps).deployment := by
  have hrun (s : Server) (hs : P s.deployment) : P (s.run steps).deployment := by
    induction steps generalizing s with
    | nil => exact hs
    | cons a steps ih =>
      refine ih (fun b hb => hsteps b (List.mem_cons_of_mem a hb)) (s.step a) ?_
      rcases s.deployment_step a with heq | ⟨cs, hcs, h⟩
      · exact heq ▸ hs
      · refine hcommit _ cs _ ?_ hs h
        rcases hcs with hcs | ⟨b, rfl, rfl⟩
        · exact hallowed cs hcs
        · exact hsteps b List.mem_cons_self
  exact hrun _ (hnew _ _)

/-- What all committed batches preserve holds after every run. -/
theorem run_invariant {P : Deployment → Prop}
    (hnew : ∀ policy context, P (vacant policy context))
    (hcommit : ∀ d cs d', P d → d.Commits cs d' → P d')
    (config : ServerConfig) (engine : Engine) (pool : Pool) (steps : List Step) :
    P ((new config engine pool).run steps).deployment :=
  run_induction (A := fun _ => True) hnew (fun _ _ => trivial) (fun d cs d' _ => hcommit d cs d')
    config engine pool fun _ _ => trivial

end Server

end ServletContainer
