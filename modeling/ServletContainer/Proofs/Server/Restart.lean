import ServletContainer.Proofs.Server.Listeners
import ServletContainer.Proofs.Server.Started
import ServletContainer.Proofs.Server.Vacancy
import ServletContainer.Server.Service

/-! Stopping and starting again. A server whose engine could be started before can be started from any
vacant deployment, and what it then holds depends on its configuration alone, but for the place of the
default context in the order of creation (`Server.start_vacant`). A stopped server is vacant, so that it
starts like a new one (`Server.follow_restart`). -/
namespace ServletContainer

theorem InProcess.configure_eq (i : InProcess) (settings : EngineSettings) :
    i.configure settings = (({} : InProcess).configure settings).map fun k =>
      { i with checkClasses := k.checkClasses } := by
  unfold configure
  split <;> rfl

def LogicalContext.unnumbered (c : LogicalContext) : LogicalContext := { c with order := 0 }

theorem Contexts.logical_sole_unnumbered (c : LogicalContext) :
    (sole c).logical.mapWithKey (fun _ c => c.unnumbered) =
      (∅ : OrdMap _ _).insert c.id c.unnumbered :=
  OrdMap.mapWithKey_insert ..

/-- The deployment without the places of its contexts in the order of creation and without the number
of the next copy, which only serves to tell elements apart. -/
def Deployment.unnumbered (d : Deployment) : Deployment :=
  { d with
    contexts := { d.contexts with
      logical := d.contexts.logical.mapWithKey fun _ c => c.unnumbered }
    nextCopy := 0 }

def Table.unnumbered (t : Table) : Table :=
  { t with
    mounts := t.mounts.map fun m =>
      { m with
        contexts := m.contexts.map LogicalContext.unnumbered
        servlets := m.servlets.map fun s =>
          { s with context := s.context.map LogicalContext.unnumbered } } }

namespace Server

variable {s t : Server} {config : ServerConfig} {i : InProcess}

/-- The settings of the engine are proper, and so is the path of the default context. -/
structure Bootable (config : ServerConfig) : Prop where
  engine : ∃ k, ({} : InProcess).configure config.engine = .ok k
  path : ∃ p, ContextPath.parse config.defaultContextPath = .ok p

/-- What stays with a server: its configuration, the policy and the default context that come of it, and
that what it remembers is named. -/
structure Settled (config : ServerConfig) (s : Server) : Prop where
  config_eq : s.config = config
  policy : s.deployment.policy = config.arbitration
  defaultContext : s.deployment.defaultContext = config.defaultContext
  remembers : s.deployment.Remembers

theorem Settled.of_eq (h : Settled config s) (hconfig : t.config = s.config)
    (hdeployment : t.deployment = s.deployment) : Settled config t :=
  ⟨hconfig.trans h.config_eq, hdeployment ▸ h.policy, hdeployment ▸ h.defaultContext,
    hdeployment ▸ h.remembers⟩

theorem Settled.commits (h : Settled config s) (hconfig : t.config = s.config) {cs : List Change}
    (hcommits : s.deployment.Commits cs t.deployment) : Settled config t := by
  obtain ⟨m, hm, hblank⟩ := hcommits.blank
  have hpolicy : t.deployment.policy = m.policy := congrArg (·.policy) hblank
  have hcontext : t.deployment.defaultContext = m.defaultContext :=
    congrArg (·.defaultContext) hblank
  exact ⟨hconfig.trans h.config_eq, (hpolicy.trans hm.settings.1).trans h.policy,
    (hcontext.trans hm.settings.2).trans h.defaultContext, hcommits.remembers h.remembers⟩

theorem Settled.submit (h : Settled config s) (b : Batch) : Settled config (s.submit b).2 := by
  have hconfig : (s.submit b).2.config = s.config := by rw [submit_frame]
  rcases s.deployment_submit b with heq | hcommits
  · exact h.of_eq hconfig heq
  · exact h.commits hconfig hcommits

theorem Settled.start (h : Settled config s) : Settled config s.start.2 :=
  start_preserves (P := Settled config) (fun _ _ h _ => h.of_eq rfl rfl)
    (fun _ _ h _ => h.of_eq rfl rfl) (fun _ _ h _ => h.of_eq rfl rfl)
    (fun _ b h _ => h.submit b) (fun _ h => h.of_eq rfl rfl) h

theorem Settled.stop (h : Settled config s) : Settled config s.stop.2 :=
  stop_preserves (h.submit _) (fun _ _ h _ => h.of_eq rfl rfl) h

theorem Settled.obey (h : Settled config s) (c : Command) : Settled config (s.obey c).2 := by
  cases c with
  | start => exact h.start
  | stop => exact h.stop
  | submit b => exact h.submit b
  | meanwhile => exact h.of_eq rfl rfl

theorem Settled.follow (h : Settled config s) (commands : List Command) :
    Settled config (s.follow commands) := by
  induction commands generalizing s with
  | nil => exact h
  | cons c commands ih => exact ih (h.obey c)

theorem settled_new (config : ServerConfig) (engine : Engine) (pool : Pool) :
    Settled config (new config engine pool) :=
  ⟨rfl, rfl, rfl, nofun⟩

theorem bootable_of_launch (hi : s.engine = .inProcess i) (h : s.launch = (.ok (), t)) :
    Bootable s.config := by
  obtain ⟨engine, hengine, hbootstrap⟩ := launch_ok h
  obtain ⟨c, counters, r, hcontext, _⟩ := bootstrap_ok hbootstrap
  obtain ⟨p, hp, _⟩ := newContext_ok hcontext
  refine ⟨?_, p, hp⟩
  cases hk : ({} : InProcess).configure s.config.engine with
  | ok k => exact ⟨k, rfl⟩
  | error e =>
    rw [hi, Engine.configure, i.configure_eq, hk] at hengine
    cases hengine

theorem bootable_of_started (ht : s.Tending) (hs : Settled config s)
    (h : s.started → Bootable config) (c : Command) : (s.obey c).2.started → Bootable config := by
  by_cases hstarted : s.started
  · exact fun _ => h hstarted
  · intro hafter
    cases c with
    | start =>
      obtain ⟨i, hi, _⟩ := ht.attended
      simp only [obey, Server.start, if_neg hstarted] at hafter
      split at hafter
      · rename_i hlaunch
        exact hs.config_eq ▸ bootable_of_launch hi.engine hlaunch
      · exact absurd (started_launch s ▸ hafter) hstarted
    | stop =>
      rw [obey, stop_of_not_started hstarted] at hafter
      exact absurd hafter hstarted
    | submit b => exact absurd (started_submit s b ▸ hafter) hstarted
    | meanwhile => exact absurd hafter hstarted

theorem bootable_follow (ht : s.Tending) (hs : Settled config s) (h : s.started → Bootable config)
    (commands : List Command) : (s.follow commands).started → Bootable config := by
  induction commands generalizing s with
  | nil => exact h
  | cons c commands ih => exact ih (ht.obey c) (hs.obey c) (bootable_of_started ht hs h c)

/-- The engine of a server that has been started with one context bound and nothing else. -/
def bootedEngine (checkClasses : Bool) (c : LogicalContext) : InProcess :=
  { running := true, checkClasses
    mounts := (∅ : OrdMap _ _).insert c.path ⟨.ofList [c.id], ∅, []⟩ }

theorem Attended.listeners_eq_nil (h : s.Attended i)
    (hnone : ∀ id, s.deployment.placed id = none) : i.listeners = [] := by
  refine List.eq_nil_iff_forall_not_mem.2 fun l hl => not_attends hnone ((h.present l.1).1 ?_)
  rw [List.lookup_isSome_iff]
  exact ⟨l, hl, beq_self_eq_true _⟩

theorem submit_addContext_vacant (hi : s.Attended i) (hm : s.Mirrored) (hrunning : i.running)
    (hs : s.deployment.Vacant) (label : String) (c : LogicalContext) :
    ∃ r t, s.submit ⟨label, [.addContext c]⟩ = (.ok r, t) ∧
      t.deployment = { s.deployment with contexts := .sole c } ∧
      t.engine = .inProcess (bootedEngine i.checkClasses c) := by
  let b : Batch := ⟨label, [.addContext c]⟩
  let d : Deployment := { s.deployment with contexts := .sole c }
  have hempty : d.elements = ∅ := hs.elements
  have hbecomes : s.deployment.Becomes b.changes d := hs.becomes c
  have hsame : (s.deployment.rearbitrate d).1 = d := Deployment.rearbitrate_of_empty hempty
  obtain ⟨r, hr⟩ := exists_of_toBool (hm.toBool_submit_of_placed hi.engine hrunning hbecomes
    fun id => hsame.symm ▸ Deployment.placed_of_empty hempty id)
  have hdeployment : (s.submit b).2.deployment = d :=
    (submit_ok hr).unique ⟨d, hbecomes, hsame.symm⟩
  obtain ⟨j, hj, hmode⟩ := hi.submit hm b
  obtain ⟨j', hj', hmounts⟩ := (hm.submit b).mirror
  cases hj.engine.symm.trans hj'
  refine ⟨r, _, hr, hdeployment, ?_⟩
  have hbound : j.mounts = (∅ : OrdMap _ _).insert c.path ⟨.ofList [c.id], ∅, []⟩ := by
    rw [hmounts, hdeployment]
    exact Deployment.mounts_sole hempty rfl
  have hnobody : j.listeners = [] := hj.listeners_eq_nil fun id =>
    hdeployment ▸ Deployment.placed_of_empty hempty id
  obtain ⟨running, checkClasses, mounts, listeners, pending⟩ := j
  obtain ⟨hrun, hcheck⟩ := Prod.mk.inj hmode
  obtain rfl : running = true := hrun.trans hrunning
  obtain rfl : checkClasses = i.checkClasses := hcheck
  obtain rfl : mounts = _ := hbound
  obtain rfl : listeners = [] := hnobody
  obtain rfl : pending = [] := hj.pending
  exact hj.engine

/-- A server on which nothing is deployed starts, if it can be started at all, and then it holds its
default context alone. -/
theorem start_vacant {k : InProcess} {p : ContextPath} (ht : s.Tending) (hs : s.deployment.Vacant)
    (hstarted : s.started = false) (hengine : ({} : InProcess).configure s.config.engine = .ok k)
    (hpath : ContextPath.parse s.config.defaultContextPath = .ok p) :
    let c : LogicalContext :=
      { id := s.config.defaultContext, path := p, order := s.counters.order }
    ∃ t, s.start = (.ok (), t) ∧ t.deployment = { s.deployment with contexts := .sole c } ∧
      t.engine = .inProcess (bootedEngine k.checkClasses c) := by
  intro c
  obtain ⟨i, hi, _⟩ := ht.attended
  have hconfigure : s.engine.configure s.config.engine =
      .ok (.inProcess { i with checkClasses := k.checkClasses }) := by
    rw [hi.engine, Engine.configure, i.configure_eq, hengine]
    rfl
  obtain ⟨j, hj, hrunning, hmirrored⟩ := hi.engineStarted ht.mirrored hconfigure rfl
  have hchecks : j.checkClasses = k.checkClasses := by
    cases hj.engine
    rfl
  let counters : Counters := { s.counters with order := s.counters.order + 1 }
  let prepared : Server :=
    { s with engine := .inProcess ({ i with checkClasses := k.checkClasses } : InProcess).start, counters }
  have hprepared : prepared.Attended j := ⟨hj.engine, hj.pending, hj.turns, hj.present⟩
  obtain ⟨r, t, hsubmit, hdeployment, hbooted⟩ := submit_addContext_vacant hprepared
    ⟨hmirrored.coherent, hmirrored.tended, hmirrored.mirror⟩ hrunning hs "bootstrap" c
  have hcontext : s.counters.newContext s.config.defaultContext s.config.defaultContextPath =
      (.ok c, counters) := by
    rw [Counters.newContext, hpath]
  have hlaunch : s.launch = (.ok (), t) := by
    unfold launch
    rw [hconfigure]
    simp only [Engine.start, bootstrap, hcontext]
    rw [hsubmit]
  refine ⟨{ t with started := true }, ?_, hdeployment, hchecks ▸ hbooted⟩
  unfold Server.start
  rw [hlaunch, hstarted]
  rfl

/-- Stopping a server withdraws everything, from the engine as well. -/
theorem stop_vacant (ht : s.Tending) (hs : Settled config s) (hstarted : s.started) :
    ∃ t i, s.stop = (.ok (), t) ∧ t.started = false ∧ t.deployment.Vacant ∧
      t.engine = .inProcess i ∧ i.running = false ∧ i.mounts = ∅ ∧ i.listeners = [] ∧
      i.pending = [] := by
  obtain ⟨i, hi, hrunning⟩ := ht.attended
  have hok := ht.mirrored.stop_ok hi.engine hstarted (hrunning hstarted)
  obtain ⟨j, hj, _⟩ := hi.submit ht.mirrored (shutdown s.deployment)
  obtain ⟨e, t, _, hstop⟩ | ⟨r, t, heq, ⟨e, _, hstop⟩ | ⟨engine, hengine, hstop⟩⟩ :=
    stop_of_started hstarted
  · cases hok.symm.trans (congrArg Prod.fst hstop)
  · cases hok.symm.trans (congrArg Prod.fst hstop)
  · rw [heq] at hj
    rw [hj.engine] at hengine
    cases hengine
    have hvacant := (submit_ok heq).vacant_shutdown ht.mirrored.coherent.wellFormed
      ht.mirrored.tended hs.remembers
    exact ⟨_, j.stop, hstop, rfl, hvacant, rfl, rfl, rfl, rfl, hj.pending⟩

/-- A started server on the in-process engine can be stopped. Then nothing is deployed or mounted on it,
nothing is remembered, requests find nothing, and the engine holds nothing. It can be started again, as a
new server with its configuration can, and both then hold the same and route the same on the same engine,
but for the places of contexts in the order of creation. -/
theorem follow_restart (config : ServerConfig) (pool pool' : Pool) (commands : List Command)
    (hstarted : ((new config (.inProcess {}) pool).follow commands).started) :
    let s := (new config (.inProcess {}) pool).follow commands
    ∃ t u f, s.stop = (.ok (), t) ∧ t.start = (.ok (), u) ∧
      (new config (.inProcess {}) pool').start = (.ok (), f) ∧
      (t.deployment.elements = ∅ ∧ t.deployment.contexts.logical = ∅ ∧
        t.deployment.contexts.physical = ∅ ∧ t.deployment.withdrawn = ∅) ∧
      (t.table.mounts = [] ∧ t.table.preprocessors = []) ∧
      (∃ i, t.engine = .inProcess i ∧ i.mounts = ∅ ∧ i.listeners = [] ∧ i.pending = [] ∧
        i.running = false) ∧
      u.deployment.unnumbered = f.deployment.unnumbered ∧
      u.table.unnumbered = f.table.unnumbered ∧ u.engine = f.engine := by
  intro s
  have ht : s.Tending := (tending_new config pool).follow commands
  have hs : Settled config s := (settled_new config _ pool).follow commands
  obtain ⟨⟨k, hk⟩, p, hp⟩ := bootable_follow (tending_new config pool) (settled_new config _ pool)
    nofun commands hstarted
  obtain ⟨t, i, hstop, hnot, hvacant, hengine, hrunning, hmounts, hlisteners, hpending⟩ :=
    stop_vacant ht hs hstarted
  have htt : t.Tending := by
    have hafter := ht.stop
    rwa [hstop] at hafter
  have hts : Settled config t := by
    have hafter := hs.stop
    rwa [hstop] at hafter
  obtain ⟨u, hu, hud, hue⟩ := start_vacant htt hvacant hnot (hts.config_eq ▸ hk) (hts.config_eq ▸ hp)
  obtain ⟨f, hf, hfd, hfe⟩ := start_vacant (tending_new config pool') ⟨rfl, rfl, rfl⟩ rfl hk hp
  refine ⟨t, u, f, hstop, hu, hf, ?_, ?_, ⟨i, hengine, hmounts, hlisteners, hpending, hrunning⟩,
    ?_, ?_, ?_⟩
  · rw [hvacant.contexts]
    exact ⟨hvacant.elements, rfl, rfl, hvacant.withdrawn⟩
  · rw [table, hvacant.table_eq]
    exact ⟨rfl, rfl⟩
  · rw [hud, hfd]
    simp only [Deployment.unnumbered, Contexts.logical_sole_unnumbered]
    rw [hvacant.elements, hvacant.withdrawn, hts.policy, hts.defaultContext, hts.config_eq]
    rfl
  · have hutable := Deployment.table_sole (d := u.deployment) (by rw [hud]; exact hvacant.elements)
      (congrArg (·.contexts) hud)
    have hftable := Deployment.table_sole (d := f.deployment) (by rw [hfd]; rfl)
      (congrArg (·.contexts) hfd)
    rw [table, table, hutable, hftable, hts.config_eq]
    rfl
  · rw [hue, hfe, hts.config_eq]
    rfl

/-- A mount point of its own and an element whose context is withdrawn leave nothing behind. -/
theorem follow_restart_withdrawn :
    let main : LogicalContext := ⟨"main", ⟨"/m"⟩, 0, 2, none, .standard, ∅, {}⟩
    let s := (new {} (.inProcess {}) {}).follow [.start,
      .submit ⟨"add", [.addPhysical ⟨"/p"⟩, .addContext main, .addElement (.catchAll 1 ["main"])]⟩,
      .submit ⟨"withdraw", [.removeContext "main"]⟩]
    s.started ∧ (s.deployment.withdrawn.find? "main").isSome ∧
      (s.deployment.contexts.physical.find? ⟨"/p"⟩).isSome ∧
      ∃ t u f, s.stop = (.ok (), t) ∧ t.start = (.ok (), u) ∧
        (new {} (.inProcess {}) {}).start = (.ok (), f) ∧ t.deployment.withdrawn = ∅ ∧
        t.table.mounts = [] ∧ u.deployment.unnumbered = f.deployment.unnumbered ∧
        u.engine = f.engine := by
  intro main s
  have hstarted : s.started := by decide +kernel
  obtain ⟨t, u, f, hstop, hstart, hfresh, ⟨_, _, _, hwithdrawn⟩, ⟨hmounts, _⟩, _, hsame, _, hengine⟩ :=
    follow_restart {} {} {} _ hstarted
  exact ⟨hstarted, by decide +kernel, by decide +kernel, t, u, f, hstop, hstart, hfresh, hwithdrawn,
    hmounts, hsame, hengine⟩

end Server

end ServletContainer
