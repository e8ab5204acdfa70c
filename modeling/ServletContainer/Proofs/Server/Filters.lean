import ServletContainer.Proofs.Server.Requests

/-! The filters of a plan. A table is built from the deployment and a plan is read off the table; its
filters are exactly those enabled in its mount that are in scope of its context and mapped to the path
or to the chosen servlet, and no other filter is called (`run_plan_filters`). -/
namespace ServletContainer

def Element.MappedTo (f : Element) (relative : String) (chosen : Option ActiveServlet) : Prop :=
  (f.matchPath relative).isSome ∨ ∃ source names preprocessor s,
    f.details = .filter source names preprocessor ∧ chosen = some s ∧ s.element.name ∈ names

theorem Plan.applies_iff {relative : String} {chosen : Option ActiveServlet} {f : Element} :
    applies relative (chosen.map (·.element.name)) f ↔ f.MappedTo relative chosen := by
  unfold applies Element.MappedTo
  rw [Bool.or_eq_true]
  refine or_congr Iff.rfl ?_
  cases hd : f.details <;> cases chosen <;> simp

namespace Deployment

variable {d : Deployment} {p : ContextPath} {fs : Files} {relative path : String} {f : Element}
  {c : LogicalContext} {plan : Plan}

/-- A filter belongs to the contexts that it targets, and without targets to the one of highest
priority in the mount. -/
def InScope (d : Deployment) (p : ContextPath) (c : LogicalContext) (f : Element) : Prop :=
  c.id ∈ f.targets ∨ f.targets = [] ∧ d.contexts.highest p = some c

/-- What the filters of a plan have to be. -/
structure FilterOf (d : Deployment) (plan : Plan) (f : Element) : Prop where
  kind : f.kind = .filter
  ordinary : f.isPreprocessor = false
  enabled : ∃ id s, d.elements.find? id = some s ∧ plan.mount.path ∈ s.enabledIn.elems ∧
    s.element = f
  inScope : ∃ c, plan.view = some c ∧ d.InScope plan.mount.path c f
  mapped : f.MappedTo plan.relative plan.target.active

theorem view_mem_boundAt (hm : (d.mountAt p).Served)
    (h : (Plan.inMount fs d.table (d.mountAt p) relative).view = some c) :
    c ∈ d.contexts.boundAt p := by
  have hfrom := (d.mountAt p).target_from fs relative
  simp only [Plan.inMount] at h
  split at h
  · rename_i own hown
    obtain ⟨s, hs, hsc⟩ := Option.bind_eq_some_iff.1 hown
    have hmem : s ∈ (d.mountAt p).servlets := by
      cases ht : (d.mountAt p).target fs relative with
      | servlet t pm =>
        rw [ht] at hs hfrom
        cases hs
        exact hfrom
      | _ =>
        rw [ht] at hs
        cases hs
    obtain ⟨b, hb, hsb⟩ := hm s hmem
    cases h
    cases hsc.symm.trans hsb
    exact hb
  · exact List.mem_of_head? h

theorem inScope_iff (hw : d.contexts.WellFormed) (hc : c ∈ d.contexts.boundAt p) :
    Plan.inScope (d.mountAt p) (some c) f ↔ d.InScope p c f := by
  have htop : (d.mountAt p).top = d.contexts.highest p := (hw.highest_eq p).symm
  unfold Plan.inScope InScope
  rw [htop]
  cases ht : f.targets with
  | cons t ts => simp
  | nil =>
    cases hh : d.contexts.highest p with
    | none => simp
    | some top =>
      have htop := (hw.mem_boundAt.1 (highest_mem hw hh)).1
      have hid : top.id = c.id ↔ top = c := by
        refine ⟨fun hid => ?_, fun h => h ▸ rfl⟩
        rw [hid] at htop
        exact Option.some.inj (htop.symm.trans (hw.mem_boundAt.1 hc).1)
      simpa using hid

theorem mem_filters_mountAt : f ∈ (d.mountAt p).filters ↔
    f.kind = .filter ∧ f.isPreprocessor = false ∧ f ∈ d.enabledAt p := by
  simp [mountAt, listedAt]
  tauto

theorem mem_filters_iff (hk : d.Keyed) (hs : d.Sound) (hw : d.contexts.WellFormed)
    (h : d.table.compose fs path = some plan) : f ∈ plan.filters ↔ d.FilterOf plan f := by
  obtain ⟨p, relative, hplan⟩ := compose_eq_some h
  have hmount : plan.mount = d.mountAt p := by rw [hplan]; rfl
  have hfilters : f ∈ plan.filters ↔
      f ∈ (d.mountAt p).filters ∧ Plan.inScope (d.mountAt p) plan.view f ∧
        Plan.applies plan.relative (plan.target.active.map (·.element.name)) f := by
    rw [hplan]
    change f ∈ ((d.mountAt p).filters.filter _).filter _ ↔ _
    rw [List.mem_filter, List.mem_filter, and_assoc]
    rfl
  have hscope : Plan.inScope (d.mountAt p) plan.view f ↔
      ∃ c, plan.view = some c ∧ d.InScope p c f := by
    cases hview : plan.view with
    | none => simp [Plan.inScope]
    | some c =>
      rw [inScope_iff hw (view_mem_boundAt (mountAt_served hk hs hw p) (hplan ▸ hview))]
      simp
  have hpath : plan.mount.path = p := by rw [hmount]; rfl
  rw [hfilters, hscope, Plan.applies_iff, mem_filters_mountAt, mem_enabledAt]
  constructor
  · rintro ⟨⟨hkind, hordinary, henabled⟩, hin, hmapped⟩
    exact ⟨hkind, hordinary, hpath ▸ henabled, hpath ▸ hin, hmapped⟩
  · rintro ⟨hkind, hordinary, henabled, hin, hmapped⟩
    exact ⟨⟨hkind, hordinary, hpath ▸ henabled⟩, hpath ▸ hin, hmapped⟩

theorem mem_preprocessors (hk : d.Keyed) : f ∈ d.preprocessors ↔ f.isPreprocessor ∧
    ∃ id s, d.elements.find? id = some s ∧ (∃ p, p ∈ s.enabledIn.elems) ∧ s.element = f := by
  have henabled {id : ElementId} {s : Deployed} (hs : d.elements.find? id = some s) :
      d.isEnabled id ↔ ∃ p, p ∈ s.enabledIn.elems := by
    rw [isEnabled, enabledIn_of_find? hs]
    cases h : s.enabledIn.elems <;> simp [OrdSet.isEmpty, h]
  simp only [preprocessors, Element.mem_inOrder, List.mem_filter, Bool.and_eq_true, elementList,
    List.mem_map, OrdMap.mem_values_iff]
  constructor
  · rintro ⟨⟨s, ⟨id, hs⟩, rfl⟩, hpre, hon⟩
    rw [hk id s hs] at hon
    exact ⟨hpre, id, s, hs, (henabled hs).1 hon, rfl⟩
  · rintro ⟨hpre, id, s, hs, hon, rfl⟩
    refine ⟨⟨s, ⟨id, hs⟩, rfl⟩, hpre, ?_⟩
    rw [hk id s hs]
    exact (henabled hs).2 hon

theorem exists_compose (fs : Files)
    (hp : ∃ q ∈ d.contexts.paths, (ContextPath.below q.text path).isSome) :
    ∃ plan, d.table.compose fs path = some plan ∧ plan.mount.path ∈ d.contexts.paths ∧
      ContextPath.below plan.mount.path.text path = some plan.relative ∧
      plan.preprocessors = d.preprocessors := by
  obtain ⟨q, hq, hbelow⟩ := hp
  have hmem : d.mountAt q ∈ d.table.mounts := List.mem_map_of_mem (mem_sortBy.2 hq)
  cases hm : d.table.select path with
  | none =>
    have houtside := List.find?_eq_none.1 hm (d.mountAt q) hmem
    exact absurd hbelow houtside
  | some m =>
    obtain ⟨r, hr, rfl⟩ := List.mem_map.1 (List.mem_of_find?_eq_some hm)
    obtain ⟨relative, hrelative⟩ := Option.isSome_iff_exists.1
      (List.find?_some (p := fun m : Mount => (ContextPath.below m.path.text path).isSome) hm)
    refine ⟨Plan.inMount fs d.table (d.mountAt r) relative, ?_, mem_sortBy.1 hr, hrelative, rfl⟩
    rw [Table.compose, hm]
    simp only [hrelative, Option.map_some]

/-- Only filters of the plan are called, whether or not its collaborators can be found. -/
theorem exists_of_filter_mem_calls {env : Surroundings} {q : Incoming} {given : Pool} {id : ElementId}
    (hp : d.table.compose env.files q.uri.path = some plan)
    (h : .filter id ∈ (Dispatch.execute env d.table q given).2.calls) :
    ∃ f ∈ plan.filters, f.id = id := by
  rw [Dispatch.execute_eq env hp] at h
  rcases hpre : given.chain .preprocessor plan.preprocessors with ⟨e | pre, pool₁⟩
  · simp [Dispatch.runPlan, Dispatch.received, Exchange.setRequest, Exchange.calls, hpre] at h
  · rcases hfilters : pool₁.chain .filter plan.filters with ⟨e | filters, pool₂⟩
    · simp [Dispatch.runPlan, Dispatch.received, Exchange.setRequest, Exchange.calls, hpre, hfilters] at h
    · obtain ⟨hcpre, hcfilters⟩ := calls_chains hp hpre hfilters
      obtain ⟨page, hcalls⟩ := Dispatch.calls_runPlan env (x := Dispatch.received q given) hpre hfilters
      have hinside : ((Dispatch.arrival env plan (Dispatch.received q given)).elim []
          (Dispatch.secured env plan filters)).Sublist _ := Dispatch.elim_secured_sublist ..
      have hall := (pre.around_prefix.sublist.append hinside).append_right (Dispatch.pageCalls page)
      have hmem := hall.subset (hcalls ▸ h)
      simpa [hcpre, hcfilters, Dispatch.pageCalls] using hmem

end Deployment

open Deployment

variable (config : ServerConfig) (engine : Engine) (pool : Pool)

/-- A request path in some mount has a plan in such a mount. Its filters, best first and each once, are
exactly the filters enabled in that mount that are no preprocessors, are in scope of its context and
are mapped to the path or to the chosen servlet; its preprocessors are exactly those enabled in some
mount. Whatever comes of the request, it calls no filter but these, so that a filter with one context
as its only target is not called for a request that came to another one. -/
theorem run_plan_filters (steps : List Server.Step) (env : Surroundings) (q : Incoming)
    (given : Pool) :
    let d := ((Server.new config engine pool).run steps).deployment
    (∃ p ∈ d.contexts.paths, (ContextPath.below p.text q.uri.path).isSome) →
      ∃ plan, d.table.compose env.files q.uri.path = some plan ∧
        plan.mount.path ∈ d.contexts.paths ∧
        ContextPath.below plan.mount.path.text q.uri.path = some plan.relative ∧
        Element.Ranked plan.filters ∧ (∀ f, f ∈ plan.filters ↔ d.FilterOf plan f) ∧
        Element.Ranked plan.preprocessors ∧
        (∀ f, f ∈ plan.preprocessors ↔ f.isPreprocessor ∧ ∃ id s, d.elements.find? id = some s ∧
          (∃ p, p ∈ s.enabledIn.elems) ∧ s.element = f) ∧
        (∀ id, .filter id ∈ (Dispatch.execute env d.table q given).2.calls →
          ∃ f ∈ plan.filters, f.id = id) ∧
        ∀ id s a b, d.elements.find? id = some s → s.element.targets = [a] → plan.view = some b →
          b.id ≠ a → .filter id ∉ (Dispatch.execute env d.table q given).2.calls := by
  intro d hinside
  obtain ⟨hk, hs⟩ : d.Keyed ∧ d.Sound := run_sound config engine pool steps
  have hw : d.contexts.WellFormed := run_wellFormed config engine pool steps
  obtain ⟨plan, hplan, hmount, hbelow, hpreprocessors⟩ := exists_compose env.files hinside
  obtain ⟨hrpre, hrfilters⟩ := ranked_plan hk hplan
  have hmem (f : Element) : f ∈ plan.filters ↔ d.FilterOf plan f := mem_filters_iff hk hs hw hplan
  refine ⟨plan, hplan, hmount, hbelow, hrfilters, hmem, hrpre, fun f => ?_,
    fun id => exists_of_filter_mem_calls hplan, fun id s a b hid htargets hview hne hcall => ?_⟩
  · rw [hpreprocessors]
    exact mem_preprocessors hk
  · obtain ⟨f, hf, rfl⟩ := exists_of_filter_mem_calls hplan hcall
    obtain ⟨_, _, ⟨id, t, ht, _, rfl⟩, ⟨c, hc, hscope⟩, _⟩ := (hmem f).1 hf
    rw [hk id t ht, ht] at hid
    cases hid
    cases hview.symm.trans hc
    rcases hscope with hin | ⟨hnil, _⟩
    · exact hne (by simpa [htargets] using hin)
    · simp [htargets] at hnil

/-- Two contexts share a mount: of three filters for every path, only the one that targets the
servlet's own context is in scope. -/
theorem run_plan_filters_shared :
    let filter (id : ElementId) (name : String) (targets : List ContextId) : Change :=
      .addElement { Element.filterAll id name .accessLog false with targets }
    let steps : List Server.Step := [.start, .submit ⟨"add",
      [.addContext { id := "top", path := .root, rank := 5, order := 9 }, .addElement (.catchAll 1),
        filter 2 "any" [], filter 3 "top" ["top"], filter 4 "own" ["default"]]⟩]
    let d := ((Server.new {} .idle {}).run steps).deployment
    let env : Surroundings := ⟨⟨"", ∅⟩, fun _ => ""⟩
    let q : Incoming := { uri := ⟨"/any", none⟩ }
    (∃ p ∈ d.contexts.paths, (ContextPath.below p.text q.uri.path).isSome) ∧
      ∃ plan, d.table.compose env.files q.uri.path = some plan ∧
        (∀ f, f ∈ plan.filters ↔ d.FilterOf plan f) ∧ plan.filters.map (·.id) = [4] ∧
        plan.view.map (·.id) = some "default" := by
  intro filter steps d env q
  have hinside : ∃ p ∈ d.contexts.paths, (ContextPath.below p.text q.uri.path).isSome := by
    decide +kernel
  obtain ⟨plan, hplan, _, _, _, hfilters, _⟩ := run_plan_filters {} .idle {} steps env q {} hinside
  have hall : (d.table.compose env.files q.uri.path).all fun plan =>
      plan.filters.map (·.id) = [4] ∧ plan.view.map (·.id) = some "default" := by decide +kernel
  rw [hplan] at hall
  obtain ⟨hids, hview⟩ : plan.filters.map (·.id) = [4] ∧ plan.view.map (·.id) = some "default" := by
    simpa using hall
  exact ⟨hinside, plan, hplan, hfilters, hids, hview⟩

end ServletContainer
