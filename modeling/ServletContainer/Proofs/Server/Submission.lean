import ServletContainer.Proofs.Server.Run

/-! What a server submits on its own when it is started or stopped. Whatever happens to a server, its
deployment changes and listeners are called only by what is submitted (`Server.follows_step`). -/
namespace ServletContainer

namespace Server

variable {s t u : Server} {x : Option (Server × Batch)}

def bootstrapping (s : Server) : Option (Server × Batch) :=
  match s.counters.newContext s.config.defaultContext s.config.defaultContextPath with
  | (.error _, _) => none
  | (.ok c, counters) => some ({ s with counters }, ⟨"bootstrap", [.addContext c]⟩)

def launching (s : Server) : Option (Server × Batch) :=
  match s.engine.configure s.config.engine with
  | .error _ => none
  | .ok engine =>
    match engine.start with
    | .error _ => none
    | .ok engine => { s with engine }.bootstrapping

/-- The batch that a step submits, and the server as it is then. -/
def submission (s : Server) : Step → Option (Server × Batch)
  | .start => if s.started then none else s.launching
  | .stop => if s.started then some (s, shutdown s.deployment) else none
  | .submit b => some (s, b)
  | .elsewhere .. => none

/-- The same is deployed, and listeners have got the same calls. -/
structure Alike (s t : Server) : Prop where
  deployment : s.deployment = t.deployment
  notices : s.notices = t.notices

/-- Besides, the same instances are remembered. -/
structure Same (s t : Server) : Prop extends s.Alike t where
  pool : s.pool = t.pool

/-- One server comes of another by what is submitted, or by nothing. -/
def Follows (s : Server) (x : Option (Server × Batch)) (t : Server) : Prop :=
  match x with
  | none => t.Alike s
  | some (u, b) => u.Alike s ∧ t.Alike (u.submit b).2

/-- Besides, nothing but what is submitted asks for instances. -/
def Comes (s : Server) (x : Option (Server × Batch)) (t : Server) : Prop :=
  match x with
  | none => t.Same s
  | some (u, b) => u.Same s ∧ t.Same (u.submit b).2

theorem same_of_eq (hdeployment : s.deployment = t.deployment) (hnotices : s.notices = t.notices)
    (hpool : s.pool = t.pool) : s.Same t where
  deployment := hdeployment
  notices := hnotices
  pool := hpool

theorem Same.trans (h : s.Same t) (h' : t.Same u) : s.Same u :=
  same_of_eq (h.deployment.trans h'.deployment) (h.notices.trans h'.notices) (h.pool.trans h'.pool)

theorem Comes.of_same (h : s.Comes x t) (hs : s.Same u) : u.Comes x t := by
  cases x with
  | none => exact h.trans hs
  | some y => exact ⟨h.1.trans hs, h.2⟩

theorem Comes.same (h : s.Comes x t) (ht : u.Same t) : s.Comes x u := by
  cases x with
  | none => exact ht.trans h
  | some y => exact ⟨h.1, ht.trans h.2⟩

theorem Comes.follows (h : s.Comes x t) : s.Follows x t := by
  cases x with
  | none => exact h.toAlike
  | some y => exact ⟨h.1.toAlike, h.2.toAlike⟩

theorem comes_bootstrap (s : Server) : s.Comes s.bootstrapping s.bootstrap.2 := by
  unfold bootstrap bootstrapping
  rcases s.counters.newContext s.config.defaultContext s.config.defaultContextPath with
    ⟨e | c, counters⟩
  · exact same_of_eq rfl rfl rfl
  · refine ⟨same_of_eq rfl rfl rfl, ?_⟩
    simp only
    split <;> rename_i hsub <;> rw [hsub] <;> exact same_of_eq rfl rfl rfl

theorem comes_launch (s : Server) : s.Comes s.launching s.launch.2 := by
  unfold launch launching
  rcases s.engine.configure s.config.engine with e | configured
  · exact same_of_eq rfl rfl rfl
  · simp only
    rcases configured.start with e | engine
    · exact same_of_eq rfl rfl rfl
    · exact (comes_bootstrap _).of_same (same_of_eq rfl rfl rfl)

theorem comes_start (s : Server) : s.Comes (s.submission .start) s.start.2 := by
  have hlaunch := s.comes_launch
  by_cases hs : s.started
  · simp only [submission, start, hs, if_true]
    exact same_of_eq rfl rfl rfl
  · simp only [submission, start, hs, Bool.false_eq_true, if_false]
    split
    · rename_i heq
      rw [heq] at hlaunch
      exact hlaunch.same (same_of_eq rfl rfl rfl)
    · exact hlaunch

theorem comes_stop (s : Server) : s.Comes (s.submission .stop) s.stop.2 := by
  by_cases hs : s.started
  · simp only [submission, hs, if_true]
    refine ⟨same_of_eq rfl rfl rfl, ?_⟩
    obtain ⟨_, _, heq, hstop⟩ | ⟨_, _, heq, ⟨_, _, hstop⟩ | ⟨_, _, hstop⟩⟩ := stop_of_started hs <;>
      rw [hstop, heq] <;> exact same_of_eq rfl rfl rfl
  · rw [stop_of_not_started hs]
    simp only [submission, hs, Bool.false_eq_true, if_false]
    exact same_of_eq rfl rfl rfl

theorem changes_start {b : Batch} (h : s.submission .start = some (u, b)) :
    ∃ c, b.changes = [.addContext c] := by
  simp only [submission, launching, bootstrapping] at h
  split at h
  · cases h
  split at h
  · cases h
  split at h
  · cases h
  split at h
  · cases h
  · cases h
    exact ⟨_, rfl⟩

theorem not_adds_shutdown (d : Deployment) (e : Element) : .addElement e ∉ (shutdown d).changes := by
  simp [shutdown]

/-- What a step comes to. -/
theorem follows_step (s : Server) (a : Step) : s.Follows (s.submission a) (s.step a) := by
  cases a with
  | start => exact s.comes_start.follows
  | stop => exact s.comes_stop.follows
  | submit b => exact ⟨⟨rfl, rfl⟩, rfl, rfl⟩
  | elsewhere => exact ⟨rfl, rfl⟩

end Server

end ServletContainer
