import ServletContainer.Proofs.Deployment.Replay
import ServletContainer.Proofs.Server.Submission

/-! The effects of a whole run on a strict engine. Batch by batch, in order, it accepts all effects that a
server hands out, and has what is deployed (`Server.run_replays`). -/
namespace ServletContainer

namespace Server

variable {s : Server} {l : Ledger}

/-- The effects of the batch that a step submits, if it is committed. -/
def handed (s : Server) (a : Step) : List Effect :=
  match s.submission a with
  | none => []
  | some (u, b) =>
    match (u.submit b).1 with
    | .ok r => r.effects
    | .error _ => []

/-- The effects of all batches committed in a run. -/
def journal (s : Server) : List Step → List Effect
  | [] => []
  | a :: steps => s.handed a ++ (s.step a).journal steps

theorem step_replays (hs : s.deployment.Coherent) (hl : ∀ x, x ∈ l ↔ s.deployment.Holds x) (a : Step) :
    (s.step a).deployment.Coherent ∧
      ∃ m, l.replay (s.handed a) = some m ∧ ∀ x, x ∈ m ↔ (s.step a).deployment.Holds x := by
  have hfollows := s.follows_step a
  unfold handed
  cases hsub : s.submission a with
  | none =>
    rw [hsub] at hfollows
    rw [hfollows.deployment]
    exact ⟨hs, l, rfl, hl⟩
  | some y =>
    obtain ⟨u, b⟩ := y
    rw [hsub] at hfollows
    obtain ⟨hu, hstep⟩ := hfollows
    rw [hstep.deployment]
    rw [← hu.deployment] at hs hl
    simp only
    rcases hsubmit : u.submit b with ⟨e | r, t⟩
    · rw [submit_error hsubmit]
      exact ⟨hs, l, rfl, hl⟩
    · have ht := (submit_ok hsubmit).coherent hs
      refine ⟨ht, ?_⟩
      simp only [effects_submit hsubmit]
      exact Deployment.replay_effects hs ht hl _

theorem journal_replays (hs : s.deployment.Coherent) (hl : ∀ x, x ∈ l ↔ s.deployment.Holds x)
    (steps : List Step) :
    ∃ m, l.replay (s.journal steps) = some m ∧ ∀ x, x ∈ m ↔ (s.run steps).deployment.Holds x := by
  induction steps generalizing s l with
  | nil => exact ⟨l, rfl, hl⟩
  | cons a steps ih =>
    obtain ⟨hstep, k, hk, hkx⟩ := step_replays hs hl a
    obtain ⟨m, hm, hmx⟩ := ih hstep hkx
    exact ⟨m, by rw [journal, Ledger.replay_append, hk, Option.bind_some, hm], hmx⟩

/-- Whatever happens to a server, an engine that starts with nothing and refuses every effect that does not
fit accepts all effects of the batches that are committed, in order; and it then has the mounts, the
contexts bound to them and the elements active in them that are deployed. -/
theorem run_replays (config : ServerConfig) (engine : Engine) (pool : Pool) (steps : List Step) :
    ∃ l, Ledger.replay [] ((new config engine pool).journal steps) = some l ∧
      ∀ x, x ∈ l ↔ ((new config engine pool).run steps).deployment.Holds x := by
  refine journal_replays (Deployment.coherent_empty ..) (fun x => ?_) steps
  cases x with
  | mount p => exact iff_of_false List.not_mem_nil nofun
  | context id p => exact iff_of_false List.not_mem_nil fun ⟨_, h, _⟩ => nomatch h
  | element e p => exact iff_of_false List.not_mem_nil nofun

/-- The other way round, the engine would not have accepted these. -/
example :
    let journal := (new {} .idle {}).journal [.start, .submit ⟨"add", [.addElement (.catchAll 1)]⟩]
    journal.length = 3 ∧ (Ledger.replay [] journal).isSome ∧ Ledger.replay [] journal.reverse = none := by
  decide +kernel

end Server

end ServletContainer
