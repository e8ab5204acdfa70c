import ServletContainer.Proofs.Arbitration.Outcome
import ServletContainer.Proofs.Server.Rollback
import ServletContainer.Server.Service

/-! Starts that fail. Whatever is in the way of a start, the server does not count as started, and the same
is deployed, served and mounted as before. The engine may have been started by then, and nobody stops it
again (`Server.start_undone_iff`). -/
namespace ServletContainer

theorem InProcess.configure_ok {i k : InProcess} {settings : EngineSettings}
    (h : i.configure settings = .ok k) : k = { i with checkClasses := k.checkClasses } := by
  unfold configure at h
  split at h <;> cases h <;> rfl

namespace Server

variable {s t : Server} {i : InProcess} {e : ServerError}

theorem bootstrap_error (h : s.bootstrap = (.error e, t)) :
    s.Consumes t ∧
      ((∃ cause, ContextPath.parse s.config.defaultContextPath = .error cause ∧
        e = .validation cause) ∨ ∃ cause, e = .batch cause) := by
  have hcount := s.counters.le_newContext s.config.defaultContext s.config.defaultContextPath
  unfold bootstrap at h
  split at h <;> rename_i hcontext <;> rw [hcontext] at hcount
  · rename_i cause _
    cases h
    refine ⟨consumes_counters hcount, .inl ⟨cause, ?_, rfl⟩⟩
    unfold Counters.newContext at hcontext
    split at hcontext
    · cases hcontext
    · rename_i hpath
      cases hcontext
      exact hpath
  · split at h
    · cases h
    · rename_i hsubmit
      cases h
      exact ⟨(consumes_counters hcount).trans (consumes_submit hsubmit), .inr ⟨_, rfl⟩⟩

theorem launch_of_start_error (h : s.start = (.error e, t)) :
    ¬ s.started ∧ s.launch = (.error e, t) := by
  unfold start at h
  split at h
  · cases h
  · rename_i hstarted
    split at h
    · cases h
    · exact ⟨hstarted, h⟩

/-- What can be in the way of a start: the settings of the engine, or, when the engine runs already, the
path of the default context or the batch that binds it. -/
theorem start_error (hi : s.engine = .inProcess i) (h : s.start = (.error e, t)) :
    (∃ cause, i.configure s.config.engine = .error cause ∧ e = .engine cause ∧ t = s) ∨
    ∃ k, i.configure s.config.engine = .ok k ∧
      { s with engine := .inProcess k.start }.Consumes t ∧
      ((∃ cause, ContextPath.parse s.config.defaultContextPath = .error cause ∧
        e = .validation cause) ∨ ∃ cause, e = .batch cause) := by
  have hlaunch := (launch_of_start_error h).2
  unfold launch at hlaunch
  rw [hi, Engine.configure] at hlaunch
  cases hconfigure : i.configure s.config.engine with
  | error cause =>
    rw [hconfigure] at hlaunch
    cases hlaunch
    exact .inl ⟨cause, rfl, rfl, rfl⟩
  | ok k =>
    rw [hconfigure] at hlaunch
    exact .inr ⟨k, rfl, bootstrap_error hlaunch⟩

/-- A start has left no trace: the server counts as started if it did before, its engine runs if it did
before, and the same is deployed, served and mounted. -/
structure Undone (s t : Server) (i j : InProcess) : Prop where
  started : t.started = s.started
  running : j.running = i.running
  deployment : t.deployment = s.deployment
  table : t.table = s.table
  mounts : j.mounts = i.mounts

/-- A start that fails uses up numbers and makes listeners at most, and the engine may have taken its
settings and run; all else is as before. So it leaves no trace exactly if the engine ran before or refuses
its settings. In every other case the engine is left running, and to stop the server, which does not count
as started, does nothing about it. -/
theorem start_undone_iff (hi : s.engine = .inProcess i) (h : s.start = (.error e, t)) :
    ∃ j, t.engine = .inProcess j ∧ j = { i with running := j.running, checkClasses := j.checkClasses } ∧
      t = { s with engine := .inProcess j, pool := t.pool, counters := t.counters,
                   nextService := t.nextService } ∧
      (s.Undone t i j ↔ i.running ∨ ∃ cause, i.configure s.config.engine = .error cause) ∧
      (¬ s.Undone t i j → j.running ∧ t.stop = (.ok (), t)) := by
  obtain ⟨hstarted, _⟩ := launch_of_start_error h
  obtain ⟨cause, hrefused, _, rfl⟩ | ⟨k, hconfigure, hconsumes, _⟩ := start_error hi h
  · have hundone : t.Undone t i i := ⟨rfl, rfl, rfl, rfl, rfl⟩
    exact ⟨i, hi, rfl, by rw [← hi], iff_of_true hundone (.inr ⟨cause, hrefused⟩), absurd hundone⟩
  · have hk := InProcess.configure_ok hconfigure
    have ht := hconsumes.eq
    have hundone : s.Undone t i k.start ↔ i.running := by
      refine ⟨fun hundone => hundone.running.symm, fun hrunning => ?_⟩
      refine ⟨by rw [ht], hrunning.symm, by rw [ht], by rw [ht]; rfl, ?_⟩
      rw [hk]
      rfl
    refine ⟨k.start, by rw [ht], ?_, ht, ?_, fun _ => ⟨rfl, stop_of_not_started ?_⟩⟩
    · rw [hk]
      rfl
    · rw [hundone, hconfigure]
      simp
    · rw [ht]
      exact hstarted

/-- An engine that refuses to activate an element of an unknown class, which has been waiting for the default
context, and runs on; and one that refuses its settings. -/
theorem start_undone_iff_unregistered :
    let ghost : Element := { Element.catchAll 1 with details := .servlet (.classRef "demo.Ghost") }
    let unknown : EngineError :=
      ⟨"in-process", "activate servlet \"echo\" #1 in /", "unknown class demo.Ghost"⟩
    let unclear : EngineError :=
      ⟨"in-process", "configure", "check_classes must be true or false, got \"maybe\""⟩
    let s := ((new {} (.inProcess {}) {}).submit ⟨"early", [.addElement ghost]⟩).2
    let s' := new { engine := { properties := .ofList [("check_classes", "maybe")] } } (.inProcess {}) {}
    s.start.1 = .error (.batch (.engine "bootstrap" unknown)) ∧
      (∃ j, s.start.2.engine = .inProcess j ∧ ¬ s.Undone s.start.2 {} j ∧ j.running ∧
        s.start.2.stop = (.ok (), s.start.2)) ∧
      s'.start.1 = .error (.engine unclear) ∧
      ∃ j, s'.start.2.engine = .inProcess j ∧ s'.Undone s'.start.2 {} j := by
  intro ghost unknown unclear s s'
  have hfailed {s : Server} {e : ServerError} (h : s.start.1 = .error e) :
      s.start = (.error e, s.start.2) := Prod.ext h rfl
  have hs : s.engine = .inProcess {} := by decide +kernel
  have haccepted : ({} : InProcess).configure s.config.engine = .ok {} := by decide +kernel
  have hunknown : s.start.1 = .error (.batch (.engine "bootstrap" unknown)) := by decide +kernel
  have hrefused : ({} : InProcess).configure s'.config.engine = .error unclear := by decide +kernel
  have hunclear : s'.start.1 = .error (.engine unclear) := by decide +kernel
  obtain ⟨j, hj, _, _, hiff, hleft⟩ := start_undone_iff hs (hfailed hunknown)
  obtain ⟨j', hj', _, _, hiff', _⟩ := start_undone_iff (s := s') rfl (hfailed hunclear)
  have hundone : ¬ s.Undone s.start.2 {} j := by
    rw [hiff, haccepted]
    simp
  exact ⟨hunknown, ⟨j, hj, hundone, hleft hundone⟩, hunclear, j', hj', hiff'.2 (.inr ⟨_, hrefused⟩)⟩

/-- The default context has no valid path: the server is not started, but its engine runs, and goes on to
run when the server is stopped. -/
theorem start_leaves_running :
    let s := new { defaultContextPath := "here" } (.inProcess {}) {}
    let t := s.start.2
    s.start.1 = .error (.validation (.invalidPath "here")) ∧
      s.engine = .inProcess { running := false } ∧ t.engine = .inProcess { running := true } ∧
      t.started = false ∧ ¬ s.Undone t { running := false } { running := true } ∧
      t.stop.1 = .ok () ∧ t.stop.2.engine = .inProcess { running := true } := by
  intro s t
  refine ⟨by decide +kernel, rfl, by decide +kernel, by decide +kernel, fun h => ?_, by decide +kernel,
    by decide +kernel⟩
  cases h.running

end Server

end ServletContainer
