import ServletContainer.Proofs.Dispatch.Plan
import ServletContainer.Proofs.Dispatch.Trace
import ServletContainer.Proofs.Server.Security

/-! Requests on a server. Whatever its collaborators do, a request calls them in the order of the
plan and each at most once: preprocessors, security, filters and target, the end of security, an error
page (`run_execute_calls`). -/
namespace ServletContainer

open Deployment

theorem Pool.calls_chain {call : ElementId → Call} {es : List Element} {pool pool' : Pool}
    {fs : Filter.Chain} (h : pool.chain call es = (.ok fs, pool'))
    (hes : ∀ e ∈ es, e.kind = .filter) : fs.map (·.1) = es.map fun e => call e.id := by
  induction es generalizing pool fs with
  | nil =>
    cases h
    rfl
  | cons e es ih =>
    obtain ⟨he, hes⟩ := List.forall_mem_cons.1 hes
    unfold chain at h
    split at h
    · split at h
      · cases h
      · obtain ⟨hrest, hpool⟩ := Prod.mk.inj h
        obtain ⟨rest, hr, rfl⟩ := exists_of_map_ok hrest
        rw [List.map_cons, List.map_cons, ih (Prod.ext hr hpool) hes]
    · rename_i hno
      cases hd : e.details <;> simp_all [Element.kind, Details.kind]

namespace Dispatch

variable {pre filters : Filter.Chain} {ps fs : List ElementId} {inside : List Call}

theorem secured_sublist (env : Surroundings) (p : Plan) (filters : Filter.Chain) (x : Exchange) :
    (secured env p filters x).Sublist (.security :: (filters.map (·.1) ++ [.target]) ++ [.finish]) := by
  have hprotected : (filters.around [.target]).Sublist (filters.map (·.1) ++ [.target]) :=
    Filter.Chain.around_sublist (.refl _)
  unfold secured
  split
  · exact List.nil_sublist _
  · split
    · exact (hprotected.cons _).trans (List.sublist_append_left ..)
    · refine .append_right (.cons_cons _ ?_) _
      split
      · exact hprotected
      · exact List.nil_sublist _

theorem elim_secured_sublist (env : Surroundings) (p : Plan) (filters : Filter.Chain)
    (arrived : Option Exchange) : (arrived.elim [] (secured env p filters)).Sublist
      (.security :: (filters.map (·.1) ++ [.target]) ++ [.finish]) := by
  cases arrived with
  | none => exact List.nil_sublist _
  | some x => exact secured_sublist env p filters x

end Dispatch

namespace Deployment

variable {d : Deployment} {env : Surroundings} {q : Incoming} {given pool₁ pool₂ : Pool} {p : Plan}
  {pre filters : Filter.Chain}

theorem ranked_plan (hk : d.Keyed) (hp : d.table.compose env.files q.uri.path = some p) :
    Element.Ranked p.preprocessors ∧ Element.Ranked p.filters := by
  obtain ⟨m, relative, rfl⟩ := compose_eq_some hp
  exact ⟨hk.ranked_preprocessors, .sublist (filters_sublist m) (hk.ranked_enabledFilters m)⟩

theorem calls_chains (hp : d.table.compose env.files q.uri.path = some p)
    (hpre : given.chain .preprocessor p.preprocessors = (.ok pre, pool₁))
    (hfilters : pool₁.chain .filter p.filters = (.ok filters, pool₂)) :
    pre.map (·.1) = p.preprocessors.map (fun e => .preprocessor e.id) ∧
      filters.map (·.1) = p.filters.map (fun e => .filter e.id) := by
  obtain ⟨m, relative, rfl⟩ := compose_eq_some hp
  refine ⟨Pool.calls_chain hpre fun e he => kind_of_mem_preprocessors he,
    Pool.calls_chain hfilters fun e he => ?_⟩
  simpa using (List.mem_filter.1 ((filters_sublist m).subset he)).2

end Deployment

variable (config : ServerConfig) (engine : Engine) (pool : Pool)

def Element.filterAll (id : ElementId) (name : String) (f : Filter) (preprocessor : Bool) : Element :=
  { Element.catchAll id with name, details := .filter (.given f) [] preprocessor }

end ServletContainer
