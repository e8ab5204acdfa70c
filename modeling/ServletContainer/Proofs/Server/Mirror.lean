import ServletContainer.Proofs.Deployment.Effects
import ServletContainer.Proofs.Engine.Check
import ServletContainer.Proofs.Server.Run
import ServletContainer.Proofs.Server.Shutdown

/-! The in-process engine as a mirror of the deployment. It learns of changes only through effects, yet
it always holds in each mount what belongs there (`Server.follow_mirrored`). -/
namespace ServletContainer

namespace Deployment

variable {before after : Deployment} {i : InProcess}

/-- An engine that holds what belonged into the mounts before finds every mount in which it has to
activate something. -/
theorem Coherent.finds_effects (ha : after.Coherent) (hi : i.mounts = before.mounts)
    (refresh : OrdSet ContextPath) : i.Finds [] (effects before after refresh) := by
  intro e p c hf
  obtain ⟨id, s, _, hp, _⟩ := activate_mem_effects.1 hf
  have hafter := ha.contains_of_enabled (mem_enabledOnlyIn.1 hp).1
  rw [createPhysical_mem_effects, OrdMap.contains, hi, isSome_find?_mounts]
  cases before.contexts.physical.contains p <;> simp [hafter]

theorem Keyed.agree_effects (ha : after.Keyed) (refresh : OrdSet ContextPath) :
    ∀ f ∈ effects before after refresh, ∀ g ∈ effects before after refresh, InProcess.Agree f g := by
  rintro _ hf _ hg e p c e' p' c' rfl rfl hid
  obtain ⟨j, s, hs, _, rfl, _⟩ := activate_mem_effects.1 hf
  obtain ⟨k, t, ht, _, rfl, _⟩ := activate_mem_effects.1 hg
  rw [ha j s hs, ha k t ht] at hid
  subst hid
  cases hs.symm.trans ht
  rfl

end Deployment

namespace Server

variable {s t : Server} {b : Batch} {i : InProcess} {m : Deployment}

/-- What a valid batch comes to. -/
theorem submit_of_becomes (h : s.deployment.Becomes b.changes m) :
    let d := (s.deployment.rearbitrate m).1
    let effects := s.deployment.effects d (Change.refreshed b.changes)
    s.submit b = match s.applyEffects effects with
      | (.error cause, pool) => (.error (.engine b.label cause), { s with pool })
      | (.ok engine, pool) =>
        (.ok ⟨b.label, effects, (s.deployment.rearbitrate m).2⟩, { s with pool }.adopt d engine) := by
  intro d effects
  have happly : s.deployment.applyAll 0 b.changes = .ok m := h
  unfold submit
  exact happly ▸ rfl

theorem toBool_submit (h : s.deployment.Becomes b.changes m) :
    (s.submit b).1.toBool = (s.applyEffects (s.deployment.effects (s.deployment.rearbitrate m).1
      (Change.refreshed b.changes))).1.toBool := by
  rw [submit_of_becomes h]
  split <;> rename_i heq <;> rw [heq] <;> rfl

/-- A valid batch fails only because the engine refuses it. -/
theorem eq_engine_of_submit_error {e : BatchError} (h : s.deployment.Becomes b.changes m)
    (he : s.submit b = (.error e, t)) : ∃ cause, e = .engine b.label cause := by
  rw [submit_of_becomes h] at he
  split at he
  · cases he
    exact ⟨_, rfl⟩
  · cases he

/-- The in-process engine holds in each mount what belongs there. -/
structure Mirrored (s : Server) : Prop where
  coherent : s.deployment.Coherent
  tended : s.deployment.contexts.Tended
  mirror : ∃ i, s.engine = .inProcess i ∧ i.mounts = s.deployment.mounts

theorem mounts_applyEffects {fs : List Effect} {engine : Engine} {pool : Pool}
    (hi : s.engine = .inProcess i) (h : s.applyEffects fs = (.ok engine, pool)) :
    ∃ j, engine = .inProcess j ∧
      ∀ p, j.mounts.find? p = fs.foldl (Effect.remount p) (i.mounts.find? p) := by
  unfold applyEffects at h
  split at h
  · rename_i hempty
    cases h
    exact ⟨i, hi, fun p => by rw [List.isEmpty_iff.1 hempty]; rfl⟩
  · rw [hi] at h
    obtain ⟨hresult, hpool⟩ := Prod.mk.inj h
    obtain ⟨j, hj, rfl⟩ := exists_of_map_ok hresult
    exact ⟨j, rfl, InProcess.find?_apply (Prod.ext hj hpool)⟩

theorem adopt_engine {engine : Engine} {d : Deployment} {j : InProcess} (hj : engine = .inProcess j) :
    ∃ k, (s.adopt d engine).engine = .inProcess k ∧ k.mounts = j.mounts := by
  subst hj
  exact ⟨_, rfl, rfl⟩

theorem Mirrored.submit (h : s.Mirrored) (b : Batch) : (s.submit b).2.Mirrored := by
  -- an invalid or refused batch leaves both sides; after any other the mounts are compared path by path
  cases hm : s.deployment.applyAll 0 b.changes with
  | error f =>
    rw [Server.submit, hm]
    exact h
  | ok m =>
    have hd : (s.deployment.rearbitrate m).1.Coherent :=
      Deployment.Commits.coherent ⟨m, hm, rfl⟩ h.coherent
    have ht : (s.deployment.rearbitrate m).1.contexts.Tended :=
      Deployment.Commits.tended ⟨m, hm, rfl⟩ h.tended
    obtain ⟨i, hi, hmounts⟩ := h.mirror
    rw [submit_of_becomes hm]
    split
    · exact ⟨h.coherent, h.tended, i, hi, hmounts⟩
    · rename_i engine pool heq
      obtain ⟨j, hj, hfind⟩ := mounts_applyEffects hi heq
      obtain ⟨k, hk, hkj⟩ := adopt_engine (s := { s with pool }) (d := (s.deployment.rearbitrate m).1) hj
      refine ⟨hd, ht, k, hk, OrdMap.ext_find? fun p => ?_⟩
      rw [hkj, hfind, hmounts]
      exact Deployment.foldl_effects h.coherent hd _ p

theorem mounts_configure {settings : EngineSettings} {j : InProcess}
    (h : i.configure settings = .ok j) : j.mounts = i.mounts := by
  unfold InProcess.configure at h
  split at h <;> cases h <;> rfl

theorem Mirrored.configured {engine : Engine} (h : s.Mirrored)
    (hnext : s.engine.configure s.config.engine = .ok engine) : Mirrored { s with engine } := by
  obtain ⟨i, hi, hmounts⟩ := h.mirror
  rw [hi] at hnext
  obtain ⟨j, hj, rfl⟩ := exists_of_map_ok hnext
  exact ⟨h.coherent, h.tended, j, rfl, (mounts_configure hj).trans hmounts⟩

theorem Mirrored.engineStarted {engine : Engine} (h : s.Mirrored)
    (hnext : s.engine.start = .ok engine) : Mirrored { s with engine } := by
  obtain ⟨i, hi, hmounts⟩ := h.mirror
  rw [hi] at hnext
  cases hnext
  exact ⟨h.coherent, h.tended, _, rfl, hmounts⟩

theorem Mirrored.start (h : s.Mirrored) : s.start.2.Mirrored :=
  start_preserves (P := Mirrored) (fun _ _ h hnext => h.configured hnext)
    (fun _ _ h hnext => h.engineStarted hnext) (fun _ _ h _ => ⟨h.coherent, h.tended, h.mirror⟩)
    (fun _ b h _ => h.submit b) (fun _ h => ⟨h.coherent, h.tended, h.mirror⟩) h

theorem Mirrored.stop (h : s.Mirrored) : s.stop.2.Mirrored := by
  by_cases hstarted : s.started
  · have hsubmit := h.submit (shutdown s.deployment)
    obtain ⟨e, t, heq, hstop⟩ | ⟨r, t, heq, ⟨e, _, hstop⟩ | ⟨engine, hengine, hstop⟩⟩ :=
      stop_of_started hstarted <;> rw [heq] at hsubmit <;> rw [hstop]
    · exact hsubmit
    · exact hsubmit
    · obtain ⟨i, hi, _⟩ := hsubmit.mirror
      rw [hi] at hengine
      cases hengine
      have hgone := (submit_ok heq).physical_shutdown h.coherent.wellFormed h.tended
      have hempty : t.deployment.mounts = ∅ := by
        rw [Deployment.mounts, hgone]
        rfl
      exact ⟨hsubmit.coherent, hsubmit.tended, _, rfl, hempty.symm⟩
  · rw [stop_of_not_started hstarted]
    exact h

/-- What a server can be told, and what happens to it meanwhile: requests are served, elements built and
classes registered. -/
inductive Command where
  | start
  | stop
  | submit (b : Batch)
  | meanwhile (pool : Pool) (counters : Counters) (nextService : Nat)

def obey (s : Server) : Command → Except ServerError Unit × Server
  | .start => s.start
  | .stop => s.stop
  | .submit b =>
    let (r, t) := s.submit b
    ((r.mapError .batch).map fun _ => (), t)
  | .meanwhile pool counters nextService => (.ok (), { s with pool, counters, nextService })

def follow (s : Server) (commands : List Command) : Server :=
  commands.foldl (fun s c => (s.obey c).2) s

theorem Mirrored.obey (h : s.Mirrored) (c : Command) : (s.obey c).2.Mirrored := by
  cases c with
  | start => exact h.start
  | stop => exact h.stop
  | submit b => exact h.submit b
  | meanwhile => exact ⟨h.coherent, h.tended, h.mirror⟩

theorem Mirrored.follow (h : s.Mirrored) (commands : List Command) : (s.follow commands).Mirrored := by
  induction commands generalizing s with
  | nil => exact h
  | cons c commands ih => exact ih (h.obey c)

theorem mirrored_new (config : ServerConfig) (pool : Pool) :
    (new config (.inProcess {}) pool).Mirrored where
  coherent := Deployment.coherent_empty ..
  tended _ _ h := by cases h
  mirror := ⟨{}, rfl, rfl⟩

section Refusals

def unmounted (label effect : String) : BatchError :=
  .engine label (InProcess.refuse effect "physical context is not mounted")

variable {label effect : String}

theorem Mirrored.submit_ne (h : s.Mirrored) (b : Batch) :
    (s.submit b).1 ≠ .error (unmounted label effect) := by
  cases hm : s.deployment.applyAll 0 b.changes with
  | error f =>
    rw [Server.submit, hm]
    simp [unmounted]
  | ok m =>
    have hd : (s.deployment.rearbitrate m).1.Coherent :=
      Deployment.Commits.coherent ⟨m, hm, rfl⟩ h.coherent
    obtain ⟨i, hi, hmounts⟩ := h.mirror
    have hsorted := Deployment.pairwise_effects s.deployment (s.deployment.rearbitrate m).1
      (Change.refreshed b.changes)
    have hfinds := hd.finds_effects hmounts (Change.refreshed b.changes)
    rw [submit_of_becomes hm]
    split
    · rename_i cause pool heq
      intro hcause
      obtain ⟨_, rfl⟩ := BatchError.engine.inj (Except.error.inj hcause)
      unfold applyEffects at heq
      split at heq
      · cases heq
      · rw [hi] at heq
        exact InProcess.apply_ne_unmounted hsorted hfinds
          (map_eq_error_iff.1 (congrArg Prod.fst heq))
    · simp

theorem Mirrored.bootstrap_ne (h : s.Mirrored) :
    s.bootstrap.1 ≠ .error (.batch (unmounted label effect)) := by
  unfold Server.bootstrap
  split
  · simp
  · rename_i c counters _
    have hcounters : Mirrored { s with counters } := ⟨h.coherent, h.tended, h.mirror⟩
    have hsubmit : (Server.submit _ _).1 ≠ .error (unmounted label effect) :=
      hcounters.submit_ne ⟨"bootstrap", [.addContext c]⟩
    split <;> rename_i heq <;> rw [heq] at hsubmit
    · simp
    · simpa using hsubmit

theorem Mirrored.launch_ne (h : s.Mirrored) :
    s.launch.1 ≠ .error (.batch (unmounted label effect)) := by
  unfold Server.launch
  split
  · simp
  · rename_i hconfigured
    split
    · simp
    · rename_i hrunning
      exact ((h.configured hconfigured).engineStarted hrunning).bootstrap_ne

theorem Mirrored.obey_ne (h : s.Mirrored) (c : Command) :
    (s.obey c).1 ≠ .error (.batch (unmounted label effect)) := by
  cases c with
  | start =>
    have hlaunch : s.launch.1 ≠ .error (.batch (unmounted label effect)) := h.launch_ne
    simp only [Server.obey, Server.start]
    split
    · simp
    · split
      · simp
      · exact hlaunch
  | stop =>
    rw [Server.obey]
    by_cases hstarted : s.started
    · have hsubmit : (Server.submit _ _).1 ≠ .error (unmounted label effect) :=
        h.submit_ne (shutdown s.deployment)
      obtain ⟨e, t, heq, hstop⟩ | ⟨r, t, heq, ⟨e, _, hstop⟩ | ⟨engine, _, hstop⟩⟩ :=
        stop_of_started hstarted <;> rw [hstop]
      · rw [heq] at hsubmit
        simpa using hsubmit
      · simp
      · simp
    · rw [stop_of_not_started hstarted]
      simp
  | submit b =>
    have hsubmit : (s.submit b).1 ≠ .error (unmounted label effect) := h.submit_ne b
    rcases hr : s.submit b with ⟨e | r, t⟩ <;> rw [hr] at hsubmit
    · simpa [Server.obey, hr, Except.mapError, Except.map] using hsubmit
    · simp [Server.obey, hr, Except.mapError, Except.map]
  | meanwhile => simp [Server.obey]

end Refusals

/-- Whatever a server is told, its in-process engine has a mount for each mount point, and in it the
contexts bound there, the elements enabled there, and the filters among these, best first. It refuses
nothing for want of a mount. -/
theorem follow_mirrored (config : ServerConfig) (pool : Pool) (commands : List Command) :
    let t := (new config (.inProcess {}) pool).follow commands
    let d := t.deployment
    (∃ i, t.engine = .inProcess i ∧ i.mounts.keys = d.contexts.paths ∧ ∀ p,
      (∀ id, id ∈ (i.mountedAt p).contexts.elems ↔ ∃ c ∈ d.contexts.boundAt p, c.id = id) ∧
      (∀ id, id ∈ (i.mountedAt p).elements.elems ↔ p ∈ (d.enabledIn id).elems) ∧
      (i.mountedAt p).filters = (d.enabledFilters p).map (·.id) ∧
      Element.Ranked (d.enabledFilters p)) ∧
    ∀ c label effect, (t.obey c).1 ≠ .error (.batch (unmounted label effect)) := by
  intro t d
  have ht : t.Mirrored := (mirrored_new config pool).follow commands
  constructor
  · obtain ⟨i, hi, hmounts⟩ := ht.mirror
    refine ⟨i, hi, ?_, fun p => ?_⟩
    · rw [hmounts]
      exact OrdMap.keys_mapWithKey ..
    · have hp : i.mountedAt p = d.occupancy p := by
        rw [InProcess.mountedAt, hmounts]
        exact ht.coherent.getD_mounts p
      rw [hp]
      refine ⟨fun id => ?_, fun id => ht.coherent.mem_elements, rfl,
        ht.coherent.keyed.ranked_enabledFilters p⟩
      simp [Deployment.occupancy]
  · exact fun c label effect => ht.obey_ne c

/-- Of two servlets for every path the engine has the older one, beside the default context. -/
example :
    let t := (new {} (.inProcess {}) {}).follow
      [.start, .submit ⟨"add", [.addElement (.catchAll 1), .addElement (.catchAll 2)]⟩]
    (match t.engine with
    | .inProcess i =>
      ((i.mountedAt .root).contexts.elems, (i.mountedAt .root).elements.elems, i.mounts.keys)
    | _ => ([], [], [])) = (["default"], [1], [.root]) := by
  decide +kernel

end Server

end ServletContainer
