import ServletContainer.Proofs.Engine.Listeners
import ServletContainer.Proofs.Server.Stop

/-! The calls of context listeners that become due over the life of a server. At each post, greetings and
dismissals take turns, and who has been greeted and not dismissed is the listener that is enabled there
(`Server.Tending.turns`). -/
namespace ServletContainer

namespace Deployment

variable {d before after : Deployment} {refresh : OrdSet ContextPath} {post : Post} {f : Effect}

def Attends (d : Deployment) (post : Post) : Prop :=
  ∃ s, d.elements.find? post.1 = some s ∧ s.element.kind = .listener ∧ post.2 ∈ s.enabledIn.elems

theorem Attends.mem_enabledIn (h : d.Attends post) : post.2 ∈ (d.enabledIn post.1).elems := by
  obtain ⟨s, hs, _, hp⟩ := h
  exact Deployment.mem_enabledIn.2 ⟨s, hs, hp⟩

theorem Coherent.placed_effects (hb : before.Coherent) (ha : after.Coherent)
    (hf : f ∈ effects before after refresh) : f.Placed := by
  have hcontext {d : Deployment} {id : ElementId} {s : Deployed} {p : ContextPath} (hd : d.Coherent)
      (hs : d.elements.find? id = some s) (hp : p ∈ (d.enabledIn id).elems) :
      none ≠ d.contextFor s.element p := by
    obtain ⟨c, hc, _⟩ := hd.contextFor_of_enabled hs hp
    rw [hc]
    exact Option.some_ne_none c |>.symm
  intro e p
  constructor
  · rintro rfl
    obtain ⟨id, s, hs, hp, rfl, hc⟩ := activate_mem_effects.1 hf
    exact hcontext ha hs (mem_enabledOnlyIn.1 hp).1 hc
  · rintro rfl
    obtain ⟨id, s, hs, hp, rfl, hc⟩ := deactivate_mem_effects.1 hf
    exact hcontext hb hs (mem_enabledOnlyIn.1 hp).1 hc

theorem exists_opens_iff (ha : after.Keyed) : (∃ f ∈ effects before after refresh, f.Opens post) ↔
    post.2 ∈ after.enabledOnlyIn before (isReplaced before after post.1) post.1 :=
  exists_activate_iff ha

theorem exists_closes_iff (hb : before.Keyed) :
    (∃ f ∈ effects before after refresh, f.Closes post) ↔
      post.2 ∈ before.enabledOnlyIn after (isReplaced before after post.1) post.1 :=
  exists_deactivate_iff hb

theorem exists_greets_iff (ha : after.Coherent) :
    (∃ f ∈ effects before after refresh, f.Greets post) ↔ after.Attends post ∧
      post.2 ∈ after.enabledOnlyIn before (isReplaced before after post.1) post.1 := by
  constructor
  · rintro ⟨_, hf, e, c, rfl, hid, hkind⟩
    obtain ⟨id, s, hs, hp, rfl, _⟩ := activate_mem_effects.1 hf
    obtain rfl : id = post.1 := (ha.keyed id s hs).symm.trans hid
    exact ⟨⟨s, hs, hkind, enabledIn_of_find? hs ▸ (mem_enabledOnlyIn.1 hp).1⟩, hp⟩
  · rintro ⟨⟨s, hs, hkind, hp⟩, hmem⟩
    obtain ⟨c, hc, _⟩ := ha.contextFor_of_enabled hs (mem_enabledOnlyIn.1 hmem).1
    exact ⟨_, activate_mem_effects.2 ⟨post.1, s, hs, hmem, rfl, rfl⟩, s.element, c, by rw [hc],
      ha.keyed _ s hs, hkind⟩

theorem Attends.of_not_switched {other : Deployment} (h : d.Attends post) (hother : other.Keyed)
    (hno : post.2 ∉ d.enabledOnlyIn other (isReplaced d other post.1) post.1) (hd : d.Keyed) :
    other.Attends post := by
  obtain ⟨s, hs, hkind, hp⟩ := h
  obtain ⟨id, t, ht, htp, hts⟩ :=
    mem_enabledAt.1 (mem_enabledAt_of_not_mem_enabledOnlyIn hs hp hno)
  obtain rfl : id = post.1 := by rw [← hother id t ht, hts, hd _ s hs]
  exact ⟨t, ht, hts ▸ hkind, htp⟩

/-- A listener that is enabled at a post afterwards was greeted there, or was enabled there and was not
dismissed. -/
theorem attends_after_iff (hb : before.Coherent) (ha : after.Coherent) :
    ((∃ f ∈ effects before after refresh, f.Greets post) ∨
        before.Attends post ∧ ∀ f ∈ effects before after refresh, ¬ f.Closes post) ↔
      after.Attends post := by
  have hcloses : (∀ f ∈ effects before after refresh, ¬ f.Closes post) ↔
      post.2 ∉ before.enabledOnlyIn after (isReplaced before after post.1) post.1 := by
    simpa only [not_exists, not_and] using not_congr (exists_closes_iff hb.keyed)
  rw [exists_greets_iff ha, hcloses]
  constructor
  · rintro (⟨h, _⟩ | ⟨h, hno⟩)
    · exact h
    · exact h.of_not_switched ha.keyed hno hb.keyed
  · intro h
    by_cases hmem : post.2 ∈ after.enabledOnlyIn before (isReplaced before after post.1) post.1
    · exact .inl ⟨h, hmem⟩
    · have hbefore : before.Attends post :=
        h.of_not_switched hb.keyed (isReplaced_comm before after _ ▸ hmem) ha.keyed
      refine .inr ⟨hbefore, fun hmem' => hmem ?_⟩
      obtain ⟨_, hor⟩ := mem_enabledOnlyIn.1 hmem'
      exact mem_enabledOnlyIn.2 ⟨h.mem_enabledIn,
        .inl (hor.resolve_right (not_not.2 h.mem_enabledIn))⟩

theorem Attends.exists_closes (h : before.Attends post) (hb : before.Keyed) (ha : after.Keyed)
    (hopens : ∃ f ∈ effects before after refresh, f.Opens post) :
    ∃ f ∈ effects before after refresh, f.Closes post := by
  rw [exists_opens_iff ha, mem_enabledOnlyIn] at hopens
  rw [exists_closes_iff hb, mem_enabledOnlyIn]
  exact ⟨h.mem_enabledIn, .inl (hopens.2.resolve_right (not_not.2 h.mem_enabledIn))⟩

end Deployment

namespace Server

variable {s t : Server} {b : Batch} {i : InProcess} {fs : List Effect} {post : Post}

/-- The in-process engine has the listeners that are enabled, and the calls so far led there. -/
structure Attended (s : Server) (i : InProcess) : Prop where
  engine : s.engine = .inProcess i
  pending : i.pending = []
  turns : ∀ post, TakeTurns (s.notices.filter (·.isAt post)) (i.listeners.lookup post)
  present : ∀ post, (i.listeners.lookup post).isSome ↔ s.deployment.Attends post

/-- Doing effects, or leaving the engine alone if there are none. -/
theorem turns_applyEffects {engine : Engine} {pool : Pool} (hi : s.engine = .inProcess i)
    (hpending : i.pending = []) (h : s.applyEffects fs = (.ok engine, pool))
    (hsorted : fs.Pairwise fun f g => f.stage ≤ g.stage) (hplaced : ∀ f ∈ fs, f.Placed) :
    ∃ j, engine = .inProcess j ∧ j.mode = i.mode ∧ ∀ post base,
      ((i.listeners.lookup post).isSome → (∃ f ∈ fs, f.Opens post) → ∃ f ∈ fs, f.Closes post) →
      TakeTurns base (i.listeners.lookup post) →
      TakeTurns (base ++ j.pending.filter (·.isAt post)) (j.listeners.lookup post) ∧
        ((j.listeners.lookup post).isSome ↔ (∃ f ∈ fs, f.Greets post) ∨
          (i.listeners.lookup post).isSome ∧ ∀ f ∈ fs, ¬ f.Closes post) := by
  unfold applyEffects at h
  split at h
  · rename_i hempty
    cases h
    rw [List.isEmpty_iff.1 hempty]
    refine ⟨i, hi, rfl, fun post base _ hturns => ?_⟩
    rw [hpending]
    simpa using hturns
  · rw [hi] at h
    obtain ⟨hresult, hpool⟩ := Prod.mk.inj h
    obtain ⟨j, hj, rfl⟩ := exists_of_map_ok hresult
    have happly : i.apply s.pool fs = (.ok j, pool) := Prod.ext hj hpool
    refine ⟨j, rfl, ?_, fun post base hfree hturns =>
      InProcess.takeTurns_apply happly hsorted hplaced hpending hfree hturns⟩
    obtain ⟨_, ch, _, rfl⟩ := InProcess.apply_ok happly
    exact InProcess.mode_performAll ..

theorem Attended.submit (h : s.Attended i) (hs : s.Mirrored) (b : Batch) :
    ∃ j, (s.submit b).2.Attended j ∧ j.mode = i.mode := by
  cases hm : s.deployment.applyAll 0 b.changes with
  | error f =>
    rw [Server.submit, hm]
    exact ⟨i, h, rfl⟩
  | ok m =>
    have hafter : (s.deployment.rearbitrate m).1.Coherent :=
      Deployment.Commits.coherent ⟨m, hm, rfl⟩ hs.coherent
    rw [submit_of_becomes hm]
    split
    · exact ⟨i, ⟨h.engine, h.pending, h.turns, h.present⟩, rfl⟩
    · rename_i engine pool heq
      obtain ⟨j, rfl, hmode, hposts⟩ := turns_applyEffects h.engine h.pending heq
        (Deployment.pairwise_effects ..) fun f hf => hs.coherent.placed_effects hafter hf
      have hpost (post : Post) := hposts post _ (fun hsome hopens =>
        ((h.present post).1 hsome).exists_closes hs.coherent.keyed hafter.keyed hopens) (h.turns post)
      refine ⟨{ j with pending := [] }, ⟨rfl, rfl, fun post => ?_, fun post => ?_⟩, hmode⟩
      · rw [show (Server.adopt _ _ _).notices = s.notices ++ j.pending from rfl, List.filter_append]
        exact (hpost post).1
      · refine (hpost post).2.trans ?_
        rw [h.present]
        exact Deployment.attends_after_iff hs.coherent hafter

theorem started_submit (s : Server) (b : Batch) : (s.submit b).2.started = s.started := by
  rw [submit_frame]

theorem Attended.bootstrap (h : s.Attended i) (hs : s.Mirrored) :
    ∃ j, s.bootstrap.2.Attended j ∧ j.mode = i.mode := by
  unfold Server.bootstrap
  split
  · exact ⟨i, ⟨h.engine, h.pending, h.turns, h.present⟩, rfl⟩
  · rename_i c counters _
    have hcounters : Attended { s with counters } i := ⟨h.engine, h.pending, h.turns, h.present⟩
    have hsubmit := hcounters.submit ⟨hs.coherent, hs.tended, hs.mirror⟩ ⟨"bootstrap", [.addContext c]⟩
    split <;> rename_i heq <;> rw [heq] at hsubmit <;> exact hsubmit

theorem started_launch (s : Server) : s.launch.2.started = s.started := by
  unfold launch
  split
  · rfl
  · split
    · rfl
    · unfold bootstrap
      split
      · rfl
      · rename_i engine _ _ c counters _
        have hsubmit := started_submit { s with engine, counters } ⟨"bootstrap", [.addContext c]⟩
        split <;> rename_i heq <;> rw [heq] at hsubmit <;> exact hsubmit

theorem Attended.engineStarted {configured engine : Engine} (h : s.Attended i) (hs : s.Mirrored)
    (hconfigure : s.engine.configure s.config.engine = .ok configured)
    (hstart : configured.start = .ok engine) :
    ∃ j, Attended { s with engine } j ∧ j.running ∧ Mirrored { s with engine } := by
  have hmirrored : Mirrored { s with engine } := (hs.configured hconfigure).engineStarted hstart
  rw [h.engine] at hconfigure
  obtain ⟨j, hj, rfl⟩ := exists_of_map_ok hconfigure
  cases hstart
  have hsame : j.pending = i.pending ∧ j.listeners = i.listeners := by
    unfold InProcess.configure at hj
    split at hj <;> cases hj <;> exact ⟨rfl, rfl⟩
  have hlisteners : j.start.listeners = i.listeners := hsame.2
  exact ⟨j.start, ⟨rfl, hsame.1.trans h.pending, fun post => hlisteners ▸ h.turns post,
    fun post => hlisteners ▸ h.present post⟩, rfl, hmirrored⟩

theorem Attended.launch (h : s.Attended i) (hs : s.Mirrored) :
    ∃ j, s.launch.2.Attended j ∧ (s.launch.1 = .ok () → j.running) := by
  unfold Server.launch
  split
  · exact ⟨i, h, nofun⟩
  · rename_i configured hconfigure
    split
    · rename_i hstart
      rw [h.engine] at hconfigure
      obtain ⟨j, _, rfl⟩ := exists_of_map_ok hconfigure
      cases hstart
    · rename_i hstart
      obtain ⟨j, hj, hrunning, hmirrored⟩ := h.engineStarted hs hconfigure hstart
      obtain ⟨l, hl, hmode⟩ := hj.bootstrap hmirrored
      exact ⟨l, hl, fun _ => (congrArg Prod.fst hmode).trans hrunning⟩

/-- The engine of a started server runs and has the listeners that are enabled. -/
structure Tending (s : Server) : Prop where
  mirrored : s.Mirrored
  attended : ∃ i, s.Attended i ∧ (s.started → i.running)

theorem Tending.submit (h : s.Tending) (b : Batch) : (s.submit b).2.Tending := by
  obtain ⟨i, hi, hrunning⟩ := h.attended
  obtain ⟨j, hj, hmode⟩ := hi.submit h.mirrored b
  refine ⟨h.mirrored.submit b, j, hj, fun hstarted => ?_⟩
  have hrun : i.running := hrunning (started_submit s b ▸ hstarted)
  exact (congrArg Prod.fst hmode).trans hrun

theorem Tending.start (h : s.Tending) : s.start.2.Tending := by
  refine ⟨h.mirrored.start, ?_⟩
  obtain ⟨i, hi, hrunning⟩ := h.attended
  obtain ⟨j, hj, hlaunched⟩ := hi.launch h.mirrored
  have hsame := started_launch s
  unfold Server.start
  split
  · exact ⟨i, hi, hrunning⟩
  · rename_i hnot
    split
    · rename_i heq
      rw [heq] at hj hlaunched
      exact ⟨j, ⟨hj.engine, hj.pending, hj.turns, hj.present⟩, fun _ => hlaunched rfl⟩
    · exact ⟨j, hj, fun hstarted => absurd (hsame ▸ hstarted) hnot⟩

theorem not_attends {d : Deployment} (h : ∀ id, d.placed id = none) : ¬ d.Attends post := by
  rintro ⟨x, hx, _⟩
  cases (Deployment.placed_eq_none.1 (h post.1)).symm.trans hx

theorem Attended.stop (h : t.Attended i) (hnone : ∀ id, t.deployment.placed id = none)
    (started : Bool) : Attended { t with engine := .inProcess i.stop, started } i.stop where
  engine := rfl
  pending := h.pending
  turns post := by
    have hnobody : i.listeners.lookup post = none := by
      rw [← Option.not_isSome_iff_eq_none, h.present]
      exact not_attends hnone
    have hturns := h.turns post
    rw [hnobody] at hturns
    exact hturns
  present post := iff_of_false (by simp [InProcess.stop]) (not_attends hnone)

theorem Tending.stop (h : s.Tending) : s.stop.2.Tending := by
  refine ⟨h.mirrored.stop, ?_⟩
  obtain ⟨i, hi, hrunning⟩ := h.attended
  by_cases hstarted : s.started
  · obtain ⟨j, hj, hmode⟩ := hi.submit h.mirrored (shutdown s.deployment)
    have hrun : j.running := (congrArg Prod.fst hmode).trans (hrunning hstarted)
    obtain ⟨e, t, heq, hstop⟩ | ⟨r, t, heq, ⟨e, _, hstop⟩ | ⟨engine, hengine, hstop⟩⟩ :=
      stop_of_started hstarted <;> rw [heq] at hj <;> rw [hstop]
    · exact ⟨j, hj, fun _ => hrun⟩
    · exact ⟨j, hj, fun _ => hrun⟩
    · rw [hj.engine] at hengine
      cases hengine
      exact ⟨j.stop, hj.stop (submit_ok heq).placed_shutdown false, nofun⟩
  · rw [stop_of_not_started hstarted]
    exact ⟨i, hi, hrunning⟩

theorem Tending.obey (h : s.Tending) (c : Command) : (s.obey c).2.Tending := by
  cases c with
  | start => exact h.start
  | stop => exact h.stop
  | submit b => exact h.submit b
  | meanwhile =>
    obtain ⟨i, hi, hrunning⟩ := h.attended
    exact ⟨⟨h.mirrored.coherent, h.mirrored.tended, h.mirrored.mirror⟩, i,
      ⟨hi.engine, hi.pending, hi.turns, hi.present⟩, hrunning⟩

theorem Tending.follow (h : s.Tending) (commands : List Command) : (s.follow commands).Tending := by
  induction commands generalizing s with
  | nil => exact h
  | cons c commands ih => exact ih (h.obey c)

theorem tending_new (config : ServerConfig) (pool : Pool) : (new config (.inProcess {}) pool).Tending where
  mirrored := mirrored_new config pool
  attended :=
    ⟨{}, ⟨rfl, rfl, fun _ => .none, fun _ => iff_of_false nofun fun ⟨_, hx, _⟩ => nomatch hx⟩, nofun⟩

theorem Tending.turns (h : s.Tending) (post : Post) :
    ∃ present, TakeTurns (s.notices.filter (·.isAt post)) present ∧
      (present.isSome ↔ s.deployment.Attends post) := by
  obtain ⟨i, hi, _⟩ := h.attended
  exact ⟨i.listeners.lookup post, hi.turns post, hi.present post⟩

def greeter (id : ElementId) (targets : List ContextId) : Element :=
  { Element.catchAll id targets with
    name := "greeter", patterns := .urls []
    details := .listener (.supplier .perLookup (.tagged "greeter" false) 0 "") }

end Server

end ServletContainer
