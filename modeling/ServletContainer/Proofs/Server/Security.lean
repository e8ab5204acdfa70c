import ServletContainer.Proofs.Dispatch.Calls
import ServletContainer.Proofs.Dispatch.Plan
import ServletContainer.Proofs.Server.Arbitration
import ServletContainer.Server.Service

/-! Security on a server. In every state of a run the contexts are well formed and elements are
enabled only where they are mapped to, so that every servlet is served under a context of its mount
and every plan that does something enters the security of such a context first
(`run_plan_secured`). -/
namespace ServletContainer

open Deployment

variable (config : ServerConfig) (engine : Engine) (pool : Pool)

theorem run_wellFormed (steps : List Server.Step) :
    ((Server.new config engine pool).run steps).deployment.contexts.WellFormed :=
  Server.run_invariant (P := fun d => d.contexts.WellFormed) (fun _ _ => Contexts.WellFormed.empty)
    (fun _ _ _ hd h => h.wellFormed hd) config engine pool steps

/-- A plan that is not empty has the context of its servlet, or else the one of highest priority. -/
theorem run_plan_view (steps : List Server.Step) {fs : Files} {path : String} {p : Plan}
    (hp : ((Server.new config engine pool).run steps).table.compose fs path = some p)
    (hne : p.isEmpty = false) :
    let bound := ((Server.new config engine pool).run steps).deployment.contexts.boundAt p.mount.path
    ∃ c ∈ bound, p.view = some c ∧ (∀ a, p.target.active = some a → a.context = some c) ∧
      (p.target.active = none → bound.head? = some c) := by
  obtain ⟨hk, hs⟩ := run_sound config engine pool steps
  obtain ⟨q, relative, rfl⟩ := compose_eq_some hp
  exact Plan.view_of_not_isEmpty (mountAt_served hk hs (run_wellFormed config engine pool steps) q) hne

/-- Servlets and resources are served under a context bound in their mount. A plan that is not empty
has such a context, too: that of its servlet, or else the one of highest priority; and the first thing
that comes of the plan is the security of this context. -/
theorem run_plan_secured (steps : List Server.Step) :
    let s := (Server.new config engine pool).run steps
    let bound := s.deployment.contexts.boundAt
    (∀ m ∈ s.table.mounts, ∀ a ∈ m.servlets,
        ∃ c ∈ bound m.path, c.path = m.path ∧ a.context = some c) ∧
      ∀ fs path p, s.table.compose fs path = some p → p.isEmpty = false →
        ∃ c ∈ bound p.mount.path, c.path = p.mount.path ∧ p.view = some c ∧
          (∀ a, p.target.active = some a → a.context = some c) ∧
          (p.target.active = none → ∀ b ∈ bound p.mount.path, c.precedes b) ∧
          ∀ env filters x,
            x.calls ++ [.security] <+: (Dispatch.runSecured env p filters x).2.calls := by
  intro s bound
  obtain ⟨hk, hs⟩ : s.deployment.Keyed ∧ s.deployment.Sound := run_sound config engine pool steps
  have hw : s.deployment.contexts.WellFormed := run_wellFormed config engine pool steps
  have hserved := mountAt_served hk hs hw
  have hpath {p : ContextPath} {c : LogicalContext} (hc : c ∈ bound p) : c.path = p :=
    (hw.mem_boundAt.1 hc).2
  refine ⟨fun m hm a ha => ?_, fun fs path p hp hne => ?_⟩
  · obtain ⟨p, rfl⟩ := mem_table_mounts hm
    obtain ⟨c, hc, hac⟩ := hserved p a ha
    exact ⟨c, hc, hpath hc, hac⟩
  · obtain ⟨c, hc, hview, hown, htop⟩ := run_plan_view config engine pool steps hp hne
    refine ⟨c, hc, hpath hc, hview, hown, fun hno => hw.head?_precedes (htop hno), ?_⟩
    exact fun env filters => Dispatch.security_first env hview hne

theorem run_plan_secured_started :
    let s := (Server.new {} .idle {}).run [.start, .submit ⟨"add", [.addElement (.catchAll 1)]⟩]
    ∃ p c, s.table.compose ⟨"", ∅⟩ "/any" = some p ∧ p.isEmpty = false ∧ p.view = some c ∧
      c.path = p.mount.path := by
  intro s
  have hsome : (s.table.compose ⟨"", ∅⟩ "/any").isSome := by decide +kernel
  obtain ⟨p, hp⟩ := Option.isSome_iff_exists.1 hsome
  have hne : p.isEmpty = false := by
    have hall : (s.table.compose ⟨"", ∅⟩ "/any").all (fun p => !p.isEmpty) := by decide +kernel
    simpa [hp] using hall
  obtain ⟨c, _, hpath, hview, _⟩ := (run_plan_secured {} .idle {} _).2 ⟨"", ∅⟩ "/any" p hp hne
  exact ⟨p, c, hp, hne, hview, hpath⟩

end ServletContainer
