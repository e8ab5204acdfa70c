import ServletContainer.Proofs.Server.Listeners

/-! The calls of context listeners as they are made. A batch is committed before its listeners are called one
by one, so that they may give the server commands, whose own calls come first then. Every call that is due is
made once, whatever listeners do (`Session.perm_run`). If they give no commands, the calls are made in the
order in which they became due, so that they greet and dismiss by turns; and a server that is stopped has
dismissed everybody, unless a start has failed and left its engine running (`Session.run_listeners`). -/
namespace ServletContainer

theorem TakeTurns.of_prefix {ns ms : List Notice} {present : Option (Instance Listener)}
    (h : TakeTurns ms present) (hbefore : ns <+: ms) : ∃ present, TakeTurns ns present := by
  induction h generalizing ns with
  | none =>
    rw [List.prefix_nil.1 hbefore]
    exact ⟨_, .none⟩
  | greet n h hup ih =>
    rcases List.prefix_concat_iff.1 hbefore with rfl | hbefore
    · exact ⟨_, h.greet n hup⟩
    · exact ih hbefore
  | dismiss n h hup ih =>
    rcases List.prefix_concat_iff.1 hbefore with rfl | hbefore
    · exact ⟨_, h.dismiss n hup⟩
    · exact ih hbefore

/-- The last call tells who is present. -/
theorem TakeTurns.present_eq {ns : List Notice} {present : Option (Instance Listener)}
    (h : TakeTurns ns present) :
    present = ns.getLast?.bind fun n => if n.up then some n.listener else Option.none := by
  cases h with
  | none => rfl
  | greet n _ hup => simp [hup]
  | dismiss n _ hup => simp [hup]

theorem TakeTurns.head?_up {ns : List Notice} {present : Option (Instance Listener)}
    (h : TakeTurns ns present) : ns.head?.all (·.up) := by
  induction h with
  | none => rfl
  | @greet ns n h hup ih =>
    cases ns with
    | nil => simpa using hup
    | cons => exact ih
  | @dismiss ns n h hup ih =>
    cases ns with
    | nil => cases h.present_eq
    | cons => exact ih

namespace Server

variable {s t : Server} {r : Report}

theorem notices_submit (s : Server) (b : Batch) : s.notices <+: (s.submit b).2.notices := by
  unfold submit
  split
  · exact List.prefix_rfl
  · simp only
    split
    · exact List.prefix_rfl
    · exact List.prefix_append ..

theorem notices_start (s : Server) : s.notices <+: s.start.2.notices :=
  start_preserves (P := fun t => s.notices <+: t.notices) (fun _ _ h _ => h) (fun _ _ h _ => h)
    (fun _ _ h _ => h) (fun t b h _ => h.trans (t.notices_submit b)) (fun _ h => h) List.prefix_rfl

/-- The end of a stop, after everything was withdrawn and everybody called. -/
def halted (s : Server) : Server :=
  match s.engine.stop with
  | .ok engine => { s with engine }
  | .error _ => { s with started := true }

def returned (s : Server) (halts : Bool) : Server := if halts then s.halted else s

@[simp] theorem notices_returned (s : Server) (halts : Bool) : (s.returned halts).notices = s.notices := by
  unfold returned halted
  split
  · split <;> rfl
  · rfl

theorem returned_meanwhile (s : Server) (halts : Bool) (pool : Pool) (counters : Counters)
    (nextService : Nat) : returned { s with pool, counters, nextService } halts =
      { s.returned halts with pool, counters, nextService } := by
  cases halts with
  | false => rfl
  | true => cases hstop : s.engine.stop <;> simp only [returned, halted, hstop, if_true]

theorem stop_eq_returned (hstarted : s.started) (h : s.submit (shutdown s.deployment) = (.ok r, t)) :
    s.stop.2 = returned { t with started := false } true := by
  have hsame : t.started = true := by
    have hsubmit := started_submit s (shutdown s.deployment)
    rw [h] at hsubmit
    exact hsubmit.trans hstarted
  obtain ⟨e, t', heq, _⟩ | ⟨r', t', heq, ⟨e, hengine, hstop⟩ | ⟨engine, hengine, hstop⟩⟩ :=
    stop_of_started hstarted <;> cases h.symm.trans heq <;> simp only [hstop, returned, halted, hengine, if_true]
  rw [← hsame]

/-- The engine of a server that is not started does not run, and has no listeners. -/
def Asleep (s : Server) : Prop :=
  s.started = false → ∃ i, s.engine = .inProcess i ∧ i.running = false ∧ i.listeners = []

theorem Asleep.submit (h : s.Asleep) (b : Batch) : (s.submit b).2.Asleep := by
  intro hstarted
  rw [started_submit] at hstarted
  obtain ⟨i, hi, hrunning, hnobody⟩ := h hstarted
  unfold Server.submit
  split
  · exact ⟨i, hi, hrunning, hnobody⟩
  · simp only
    split
    · exact ⟨i, hi, hrunning, hnobody⟩
    · rename_i engine pool heq
      unfold applyEffects at heq
      split at heq
      · cases heq
        refine ⟨{ i with pending := [] }, ?_, hrunning, hnobody⟩
        simp only [adopt, hi]
        rfl
      · simp [hi, Engine.apply, InProcess.apply, hrunning, Except.map] at heq

theorem started_start (h : s.start = (.ok (), t)) : t.started := by
  unfold start at h
  split at h
  · cases h
    assumption
  · split at h
    · cases h
      rfl
    · rename_i hfailed
      exact (hfailed _ _ h).elim

theorem Asleep.stop (hs : s.Tending) (h : s.Asleep) : s.stop.2.Asleep := by
  by_cases hstarted : s.started
  · obtain ⟨i, hi, _⟩ := hs.attended
    obtain ⟨j, hj, _⟩ := hi.submit hs.mirrored (shutdown s.deployment)
    have hsame := started_submit s (shutdown s.deployment)
    obtain ⟨e, t, heq, hstop⟩ | ⟨r, t, heq, ⟨e, _, hstop⟩ | ⟨engine, hengine, hstop⟩⟩ :=
      stop_of_started hstarted <;> rw [heq] at hj hsame <;> rw [hstop]
    · exact fun hnot => Bool.noConfusion ((hsame.trans hstarted).symm.trans hnot)
    · exact fun hnot => Bool.noConfusion ((hsame.trans hstarted).symm.trans hnot)
    · rw [hj.engine] at hengine
      cases hengine
      exact fun _ => ⟨j.stop, rfl, rfl, rfl⟩
  · rw [stop_of_not_started hstarted]
    exact h

def Command.works (s : Server) : Command → Bool
  | .start => s.start.1.toBool
  | _ => true

theorem Asleep.obey (hs : s.Tending) (h : s.Asleep) {c : Command} (hc : c.works s) :
    (s.obey c).2.Asleep := by
  cases c with
  | start =>
    obtain ⟨_, hstart⟩ := exists_of_toBool hc
    exact fun hnot => Bool.noConfusion ((started_start hstart).symm.trans hnot)
  | stop => exact h.stop hs
  | submit b => exact h.submit b
  | meanwhile => exact h

theorem Asleep.not_attends (h : s.Asleep) (hs : s.Tending) (hnot : s.started = false) (post : Post) :
    ¬ s.deployment.Attends post := by
  obtain ⟨i, hi, _, hnobody⟩ := h hnot
  obtain ⟨j, hj, _⟩ := hs.attended
  cases hi.symm.trans hj.engine
  rw [← hj.present, hnobody]
  exact Bool.false_ne_true

end Server

/-- The calls that a command has yet to make, and whether it stops the engine after them. -/
structure Frame where
  due : List Notice
  halts : Bool
  deriving DecidableEq

/-- A server that calls its listeners. -/
structure Session where
  server : Server
  /-- The commands that have not returned, the latest first. -/
  frames : List Frame := []
  delivered : List Notice := []

namespace Session

open Server

variable {s : Session}

def new (config : ServerConfig) (pool : Pool) : Session := ⟨.new config (.inProcess {}) pool, [], []⟩

def entered (s : Session) (t : Server) (halts : Bool) : Session :=
  { s with server := t, frames := ⟨t.notices.drop s.server.notices.length, halts⟩ :: s.frames }

/-- What a command does before it calls listeners. -/
def command (s : Session) : Command → Session
  | .start => s.entered s.server.start.2 false
  | .submit b => s.entered (s.server.submit b).2 false
  | .stop =>
    if s.server.started then
      match s.server.submit (shutdown s.server.deployment) with
      | (.ok _, t) => s.entered { t with started := false } true
      | (.error _, t) => s.entered t false
    else s.entered s.server false
  | .meanwhile pool counters nextService =>
    { s with server := { s.server with pool, counters, nextService } }

/-- Makes the next call of the latest command, or returns from it. -/
def proceed (s : Session) : Session :=
  match s.frames with
  | [] => s
  | ⟨n :: due, halts⟩ :: fs => { s with frames := ⟨due, halts⟩ :: fs, delivered := s.delivered ++ [n] }
  | ⟨[], halts⟩ :: fs => { s with frames := fs, server := s.server.returned halts }

/-- What happens to a session. While calls are being made, it is listeners who give the commands. -/
inductive Event where
  | command (c : Command)
  | proceed

def step (s : Session) : Event → Session
  | .command c => s.command c
  | .proceed => s.proceed

def run (s : Session) (events : List Event) : Session := events.foldl step s

def always (p : Session → Event → Bool) : Session → List Event → Bool
  | _, [] => true
  | s, e :: es => p s e && always p (s.step e) es

/-- Listeners give no commands. -/
def undisturbed (s : Session) : Event → Bool
  | .command (.meanwhile ..) => true
  | .command _ => s.frames.isEmpty
  | .proceed => true

def works (s : Session) : Event → Bool
  | .command c => c.works s.server
  | .proceed => true

/-- A command does something to the server and makes calls due, and what is left to do when these have been
made is to return. -/
theorem command_cases (s : Session) (c : Command) :
    (∃ t halts, s.command c = s.entered t halts ∧ s.server.notices <+: t.notices ∧
      (s.server.obey c).2 = t.returned halts) ∨
    ∃ pool counters nextService, c = .meanwhile pool counters nextService := by
  cases c with
  | start => exact .inl ⟨_, false, rfl, s.server.notices_start, rfl⟩
  | submit b => exact .inl ⟨_, false, rfl, s.server.notices_submit b, rfl⟩
  | stop =>
    have hnotices := s.server.notices_submit (shutdown s.server.deployment)
    left
    simp only [command, obey]
    split
    · rename_i hstarted
      split <;> rename_i heq <;> rw [heq] at hnotices
      · exact ⟨_, true, rfl, hnotices, stop_eq_returned hstarted heq⟩
      · obtain ⟨_, _, heq', hstop⟩ | ⟨_, _, heq', _⟩ := stop_of_started hstarted <;>
          cases heq.symm.trans heq'
        exact ⟨_, false, rfl, hnotices, congrArg Prod.snd hstop⟩
    · rename_i hnot
      exact ⟨_, false, rfl, List.prefix_rfl, congrArg Prod.snd (stop_of_not_started hnot)⟩
  | meanwhile => exact .inr ⟨_, _, _, rfl⟩

section Delivering

theorem perm_entered {t : Server} {halts : Bool} (hnotices : s.server.notices <+: t.notices)
    (h : (s.delivered ++ s.frames.flatMap (·.due)).Perm s.server.notices) :
    ((s.entered t halts).delivered ++ (s.entered t halts).frames.flatMap (·.due)).Perm t.notices := by
  have hall : s.server.notices ++ t.notices.drop s.server.notices.length = t.notices :=
    List.prefix_iff_eq_append.1 hnotices
  refine (List.Perm.append_left s.delivered List.perm_append_comm).trans ?_
  rw [← List.append_assoc]
  exact (h.append_right _).trans (.of_eq hall)

theorem perm_step (e : Event) (h : (s.delivered ++ s.frames.flatMap (·.due)).Perm s.server.notices) :
    ((s.step e).delivered ++ (s.step e).frames.flatMap (·.due)).Perm (s.step e).server.notices := by
  cases e with
  | command c =>
    obtain ⟨t, halts, hcommand, hnotices, _⟩ | ⟨_, _, _, rfl⟩ := s.command_cases c
    · rw [step, hcommand]
      exact perm_entered hnotices h
    · exact h
  | proceed =>
    obtain ⟨server, frames, delivered⟩ := s
    match frames with
    | [] => exact h
    | ⟨n :: due, halts⟩ :: fs => simpa [step, proceed] using h
    | ⟨[], halts⟩ :: fs => simpa [step, proceed] using h

theorem perm_run (config : ServerConfig) (pool : Pool) (events : List Event) :
    let s := (new config pool).run events
    (s.delivered ++ s.frames.flatMap (·.due)).Perm s.server.notices := by
  have hrun (s : Session) (h : (s.delivered ++ s.frames.flatMap (·.due)).Perm s.server.notices) :
      let t := s.run events
      (t.delivered ++ t.frames.flatMap (·.due)).Perm t.server.notices := by
    induction events generalizing s with
    | nil => exact h
    | cons e es ih => exact ih _ (perm_step e h)
  exact hrun _ .rfl

end Delivering

/-- A session in which listeners give no commands: one command is under way at most, the calls are made in
the order in which they became due, and `P` holds of the server that comes of it. -/
inductive Orderly (P : Server → Prop) : Session → Prop
  | idle {server : Server} {delivered : List Notice} (h : P server)
    (hdelivered : delivered = server.notices) : Orderly P ⟨server, [], delivered⟩
  | busy {server : Server} {due delivered : List Notice} {halts : Bool}
    (h : P (server.returned halts)) (hdelivered : delivered ++ due = server.notices) :
    Orderly P ⟨server, [⟨due, halts⟩], delivered⟩

section Orderly

variable {P : Server → Prop}

theorem orderly_entered {server t : Server} {halts : Bool} (h : P (t.returned halts))
    (hnotices : server.notices <+: t.notices) :
    Orderly P (entered ⟨server, [], server.notices⟩ t halts) :=
  .busy h (List.prefix_iff_eq_append.1 hnotices)

theorem orderly_command {server : Server} {c : Command} (h : P (server.obey c).2) :
    Orderly P (command ⟨server, [], server.notices⟩ c) := by
  obtain ⟨t, halts, hcommand, hnotices, hobey⟩ | ⟨_, _, _, rfl⟩ :=
    command_cases ⟨server, [], server.notices⟩ c
  · rw [hcommand]
    exact orderly_entered (hobey ▸ h) hnotices
  · exact .idle h rfl

variable (hmeanwhile : ∀ s pool counters nextService, P s → P { s with pool, counters, nextService })

include hmeanwhile

theorem Orderly.step {e : Event} (hs : Orderly P s) (he : s.undisturbed e)
    (hobey : ∀ c, e = .command c → P s.server → P (s.server.obey c).2) : Orderly P (s.step e) := by
  cases hs with
  | idle h hdelivered =>
    subst hdelivered
    cases e with
    | command c => exact orderly_command (hobey c rfl h)
    | proceed => exact .idle h rfl
  | @busy server due delivered halts h hdelivered =>
    cases e with
    | command c =>
      -- only what befalls the server besides its commands can come between the calls
      cases c with
      | meanwhile pool counters nextService =>
        refine .busy ?_ hdelivered
        rw [returned_meanwhile]
        exact hmeanwhile _ pool counters nextService h
      | _ => cases he
    | proceed =>
      cases due with
      | nil =>
        rw [List.append_nil] at hdelivered
        exact .idle h (hdelivered.trans (server.notices_returned halts).symm)
      | cons n due => exact .busy h (by rw [← hdelivered, List.append_assoc]; rfl)

theorem Orderly.run {q : Session → Event → Bool}
    (hobey : ∀ s c, P s.server → q s (.command c) → P (s.server.obey c).2) {events : List Event}
    (hs : Orderly P s) (hquiet : s.always undisturbed events) (hq : s.always q events) :
    Orderly P (s.run events) := by
  induction events generalizing s with
  | nil => exact hs
  | cons e es ih =>
    obtain ⟨he, hquiet⟩ := Bool.and_eq_true_iff.1 hquiet
    obtain ⟨hqe, hq⟩ := Bool.and_eq_true_iff.1 hq
    exact ih (hs.step hmeanwhile he fun c hc h => hobey s c h (hc ▸ hqe)) hquiet hq

omit hmeanwhile in
/-- Left alone, a session makes the calls that are due, and the commands return. -/
theorem Orderly.finish (h : Orderly P s) : ∃ k, let t := s.run (.replicate k .proceed)
    t.frames = [] ∧ P t.server ∧ t.delivered = t.server.notices := by
  cases h with
  | idle h hdelivered => exact ⟨0, rfl, h, hdelivered⟩
  | @busy server due delivered halts h hdelivered =>
    refine ⟨due.length + 1, ?_⟩
    induction due generalizing delivered with
    | nil =>
      rw [List.append_nil] at hdelivered
      exact ⟨rfl, h, hdelivered.trans (server.notices_returned halts).symm⟩
    | cons n due ih => exact ih (by rw [← hdelivered, List.append_assoc]; rfl)

end Orderly

theorem Orderly.turns (h : Orderly Tending s) (post : Post) :
    ∃ present, TakeTurns (s.delivered.filter (·.isAt post)) present ∧
      (s.frames = [] → (present.isSome ↔ s.server.deployment.Attends post)) := by
  cases h with
  | idle h hdelivered =>
    obtain ⟨present, hturns, hpresent⟩ := h.turns post
    exact ⟨present, hdelivered ▸ hturns, fun _ => hpresent⟩
  | @busy server due delivered halts h hdelivered =>
    obtain ⟨_, hturns, _⟩ := h.turns post
    rw [notices_returned, ← hdelivered, List.filter_append] at hturns
    obtain ⟨present, hturns⟩ := hturns.of_prefix (List.prefix_append ..)
    exact ⟨present, hturns, nofun⟩

/-- After a stop everybody has been dismissed exactly if the server was started, or nobody attended. -/
theorem dismissed_stop_iff {server : Server} (h : server.Tending) (hok : server.stop.1 = .ok ()) :
    (∀ post, TakeTurns (server.stop.2.notices.filter (·.isAt post)) none) ↔
      server.started ∨ ∀ post, ¬ server.deployment.Attends post := by
  have hnone (post : Post) : TakeTurns (server.stop.2.notices.filter (·.isAt post)) none ↔
      ¬ server.stop.2.deployment.Attends post := by
    obtain ⟨present, hturns, hpresent⟩ := h.stop.turns post
    rw [← hpresent, Option.not_isSome_iff_eq_none]
    refine ⟨fun hnone => ?_, fun hnone => hnone ▸ hturns⟩
    rw [hturns.present_eq, ← hnone.present_eq]
  simp only [hnone]
  by_cases hstarted : server.started
  · exact iff_of_true (fun post => not_attends (placed_stop hstarted hok)) (.inl hstarted)
  · rw [stop_of_not_started hstarted, or_iff_right hstarted]

/-- Every call that becomes due is made once. If listeners give no commands, then at each post the calls
greet and dismiss by turns, each dismissal goes to the instance that was greeted before, and when all commands
have returned, somebody is there exactly if a listener is enabled there. A server can always be stopped then.
That dismisses everybody exactly if the server was started or nobody is there; it always does if no start has
failed. -/
theorem run_listeners (config : ServerConfig) (pool : Pool) (events : List Event) :
    let s := (new config pool).run events
    (s.delivered ++ s.frames.flatMap (·.due)).Perm s.server.notices ∧
    ((new config pool).always undisturbed events →
      (∀ post, ∃ present, TakeTurns (s.delivered.filter (·.isAt post)) present ∧
        (s.frames = [] → (present.isSome ↔ s.server.deployment.Attends post))) ∧
      (s.frames = [] → s.server.stop.1 = .ok () ∧ ∃ k,
        let t := (s.command .stop).run (.replicate k .proceed)
        t.frames = [] ∧ t.server = s.server.stop.2 ∧
          ((∀ post, TakeTurns (t.delivered.filter (·.isAt post)) none) ↔
            s.server.started ∨ ∀ post, ¬ s.server.deployment.Attends post) ∧
          ((new config pool).always works events →
            ∀ post, TakeTurns (t.delivered.filter (·.isAt post)) none))) := by
  intro s
  refine ⟨perm_run config pool events, fun hquiet => ?_⟩
  have htending := tending_new config pool
  have horderly : Orderly Tending s := Orderly.run (fun _ _ _ _ h => h.obey (.meanwhile ..))
    (fun _ c h _ => h.obey c) (.idle htending rfl) hquiet hquiet
  refine ⟨horderly.turns, fun hreturned => ?_⟩
  have hasleep (hworks : (new config pool).always works events) :
      Orderly (fun s => s.Tending ∧ s.Asleep) s := by
    refine Orderly.run (fun _ _ _ _ h => ⟨h.1.obey (.meanwhile ..), h.2⟩)
      (fun _ c h hc => ⟨h.1.obey c, h.2.obey h.1 hc⟩) (.idle ⟨htending, fun _ => ⟨{}, rfl, rfl, rfl⟩⟩ rfl)
      hquiet hworks
  obtain ⟨server, frames, delivered⟩ := s
  obtain rfl : frames = [] := hreturned
  cases horderly with
  | idle h hdelivered =>
    subst hdelivered
    have hok : server.stop.1 = .ok () := by
      by_cases hstarted : server.started
      · obtain ⟨i, hi, hrunning⟩ := h.attended
        exact h.mirrored.stop_ok hi.engine hstarted (hrunning hstarted)
      · rw [stop_of_not_started hstarted]
    have hcommand : Orderly (· = server.stop.2) (command ⟨server, [], server.notices⟩ .stop) :=
      orderly_command rfl
    obtain ⟨k, hframes, hserver, hdelivered⟩ := hcommand.finish
    have hiff := dismissed_stop_iff h hok
    refine ⟨hok, k, hframes, hserver, ?_, fun hworks => ?_⟩
    · rw [hdelivered, hserver]
      exact hiff
    · rw [hdelivered, hserver]
      refine hiff.2 ?_
      cases hasleep hworks with
      | idle hboth _ =>
        cases hstarted : server.started with
        | true => exact .inl rfl
        | false => exact .inr fun post => hboth.2.not_attends h hstarted post

/-- A listener that moves from one context to another. -/
theorem run_listeners_moved :
    let main : LogicalContext := ⟨"main", ⟨"/m"⟩, 0, 2, none, .standard, ∅, {}⟩
    let events : List Event := [.command .start, .proceed,
      .command (.submit ⟨"add", [.addContext main, .addElement (greeter 1 ["main"])]⟩), .proceed, .proceed,
      .command (.submit ⟨"move", [.retarget 1 []]⟩), .proceed, .proceed, .proceed]
    let s := (new {} {}).run events
    (new {} {}).always undisturbed events ∧ (new {} {}).always works events ∧ s.frames = [] ∧
      s.delivered.map (fun n => (n.up, n.path.text, n.listener.number)) =
        [(true, "/m", 1), (false, "/m", 1), (true, "/", 2)] ∧
      ∃ k, ∀ post, TakeTurns
        (((s.command .stop).run (.replicate k .proceed)).delivered.filter (·.isAt post)) none := by
  intro main events s
  have hquiet : (new {} {}).always undisturbed events := by decide +kernel
  have hworks : (new {} {}).always works events := by decide +kernel
  have hreturned : s.frames = [] := by decide +kernel
  obtain ⟨_, k, _, _, _, hdismissed⟩ := ((run_listeners {} {} events).2 hquiet).2 hreturned
  exact ⟨hquiet, hworks, hreturned, by decide +kernel, k, hdismissed hworks⟩

/-- If the default context has no valid path, the engine is left running and the server not started, so
that telling it to stop dismisses nobody. And if a listener that is greeted has another one removed before that
one is greeted, the other one is dismissed first. -/
theorem run_listeners_upset :
    let main : LogicalContext := ⟨"main", ⟨"/m"⟩, 0, 1, none, .standard, ∅, {}⟩
    let early : List Event := [.command .start, .proceed,
      .command (.submit ⟨"add", [.addContext main, .addElement (greeter 1 ["main"])]⟩), .proceed, .proceed]
    let s := (new { defaultContextPath := "here" } {}).run early
    let t := (s.command .stop).run [.proceed]
    let u := (new {} {}).run [.command .start, .proceed,
      .command (.submit ⟨"add", [.addElement (greeter 1 []), .addElement { greeter 2 [] with name := "late" }]⟩),
      .proceed, .command (.submit ⟨"remove", [.removeElement 2]⟩), .proceed]
    ((new { defaultContextPath := "here" } {}).always undisturbed early ∧ s.frames = [] ∧
      s.server.stop.1 = .ok () ∧ t.frames = [] ∧
      ¬ TakeTurns (t.delivered.filter (·.isAt (1, ⟨"/m"⟩))) none) ∧
    ¬ ∃ present, TakeTurns (u.delivered.filter (·.isAt (2, .root))) present := by
  intro main early s t u
  refine ⟨⟨by decide +kernel, by decide +kernel, by decide +kernel, by decide +kernel, fun h => ?_⟩,
    fun ⟨_, h⟩ => ?_⟩
  · have hpresent : ((t.delivered.filter (·.isAt (1, ⟨"/m"⟩))).getLast?.bind fun n =>
        if n.up then some n.listener else none).isSome := by decide +kernel
    rw [← h.present_eq] at hpresent
    cases hpresent
  · have hlate : (u.delivered.filter (·.isAt (2, .root))).head?.all (·.up) = false := by decide +kernel
    exact Bool.noConfusion (hlate.symm.trans h.head?_up)

end Session

end ServletContainer
