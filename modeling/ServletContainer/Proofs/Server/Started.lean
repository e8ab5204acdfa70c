import ServletContainer.Proofs.Deployment.Entries
import ServletContainer.Proofs.Server.Run

/-! A server that has just been started. Nothing is deployed on it, and its only context is the default
context (`start_new`). -/
namespace ServletContainer

namespace Server

variable {config : ServerConfig} {engine : Engine} {pool : Pool} {s t : Server}

def baseContext (config : ServerConfig) (path : ContextPath) : LogicalContext :=
  { id := config.defaultContext, path, order := 1 }

theorem bootstrap_ok (h : s.bootstrap = (.ok (), t)) :
    ∃ c counters r, s.counters.newContext s.config.defaultContext s.config.defaultContextPath =
      (.ok c, counters) ∧ { s with counters }.submit ⟨"bootstrap", [.addContext c]⟩ = (.ok r, t) := by
  unfold bootstrap at h
  split at h
  · cases h
  · rename_i c counters hcontext
    split at h <;> rename_i hsubmit
    · cases h
      exact ⟨c, counters, _, hcontext, hsubmit⟩
    · cases h

theorem newContext_ok {n n' : Counters} {id : ContextId} {path : String} {c : LogicalContext}
    (h : n.newContext id path = (.ok c, n')) :
    ∃ p, ContextPath.parse path = .ok p ∧ c = { id, path := p, order := n.order } ∧
      n' = { n with order := n.order + 1 } := by
  unfold Counters.newContext at h
  split at h <;> rename_i hpath
  · cases h
    exact ⟨_, hpath, rfl, rfl⟩
  · cases h

theorem launch_ok (h : s.launch = (.ok (), t)) :
    ∃ engine, (s.engine.configure s.config.engine).bind Engine.start = .ok engine ∧
      { s with engine }.bootstrap = (.ok (), t) := by
  unfold launch at h
  split at h
  · cases h
  · rename_i configured hconfigure
    split at h
    · cases h
    · rename_i engine hstart
      exact ⟨engine, by rw [hconfigure]; exact hstart, h⟩

theorem launch_of_start (hs : s.started = false) (h : s.start = (.ok (), t)) :
    ∃ u, s.launch = (.ok (), u) ∧ t = { u with started := true } := by
  unfold start at h
  rw [if_neg (by simp [hs])] at h
  split at h
  · rename_i u hlaunch
    exact ⟨u, hlaunch, (Prod.mk.inj h).2.symm⟩
  · rename_i hfailed
    exact (hfailed () t h).elim

theorem start_ok (h : (new config engine pool).start = (.ok (), s)) :
    ∃ p engine' r t, ContextPath.parse config.defaultContextPath = .ok p ∧
      ((engine.configure config.engine).bind Engine.start) = .ok engine' ∧
      { new config engine' pool with counters := ⟨1, 2⟩ }.submit
        ⟨"bootstrap", [.addContext (baseContext config p)]⟩ = (.ok r, t) ∧
      s = { t with started := true } := by
  obtain ⟨t, hlaunch, rfl⟩ := launch_of_start rfl h
  obtain ⟨engine', hengine, hbootstrap⟩ := launch_ok hlaunch
  obtain ⟨c, counters, r, hcontext, hsubmit⟩ := bootstrap_ok hbootstrap
  obtain ⟨p, hp, rfl, rfl⟩ := newContext_ok hcontext
  exact ⟨p, engine', r, t, hp, hengine, hsubmit, rfl⟩

theorem start_new (h : (new config engine pool).start = (.ok (), s)) :
    ∃ p, ContextPath.parse config.defaultContextPath = .ok p ∧
      (vacant config.arbitration config.defaultContext).Commits
        [.addContext (baseContext config p)] s.deployment := by
  obtain ⟨p, engine', r, t, hp, _, hsubmit, rfl⟩ := start_ok h
  exact ⟨p, hp, submit_ok hsubmit⟩

theorem placed_start (h : (new config engine pool).start = (.ok (), s)) (id : ElementId) :
    s.deployment.placed id = none := by
  obtain ⟨p, _, hcommits⟩ := start_new h
  rw [hcommits.traces.placed]
  rfl

theorem context_start (h : (new config engine pool).start = (.ok (), s)) :
    ∃ p, ContextPath.parse config.defaultContextPath = .ok p ∧ ∀ id,
      s.deployment.contexts.find? id =
        if id = config.defaultContext then some (baseContext config p) else none := by
  obtain ⟨p, hp, hcommits⟩ := start_new h
  exact ⟨p, hp, hcommits.traces.context⟩

end Server

end ServletContainer
