import ServletContainer.Dispatch.Plan
import ServletContainer.Proofs.Deployment.Listing
import ServletContainer.Proofs.Deployment.Served

/-! Plans and their contexts. The target of a path comes from the servlets of its mount
(`Mount.target_from`), every servlet of a mount has a context that is bound there
(`Deployment.mountAt_served`), and so has every plan that is not empty
(`Plan.view_of_not_isEmpty`). -/
namespace ServletContainer

variable {fs : Files} {m : Mount} {path relative : String} {s : ActiveServlet} {pm : PatternMatch}

theorem Element.kind_of_isPreprocessor {e : Element} (h : e.isPreprocessor) : e.kind = .filter := by
  unfold isPreprocessor at h
  split at h
  · rename_i hd
    rw [kind, hd]
    rfl
  · cases h

/-- The target uses a servlet of the list, if it uses any. -/
def Target.From (ss : List ActiveServlet) : Target → Prop
  | .servlet s _ => s ∈ ss
  | .redirect _ => ss ≠ []
  | .nothing => True

namespace Mount

theorem select_eq_foldl (m : Mount) (path : String) : m.select path =
    (m.servlets.filterMap fun s => (s.element.matchPath path).map (s, ·)).foldl
      (keepBest fun b a => b.2.kind.lt a.2.kind) none := by
  rw [select, List.foldl_filterMap]
  congr 1
  funext best s
  cases h : s.element.matchPath path <;> rcases best with _ | ⟨b, bm⟩ <;> simp [prefer, keepBest, h]

theorem select_eq_some (h : m.select path = some (s, pm)) :
    s ∈ m.servlets ∧ s.element.matchPath path = some pm := by
  rw [select_eq_foldl] at h
  obtain ⟨t, ht, hmatch⟩ := List.mem_filterMap.1 (mem_of_foldl_keepBest h)
  obtain ⟨pn, hpn, heq⟩ := Option.map_eq_some_iff.1 hmatch
  cases heq
  exact ⟨ht, hpn⟩

theorem welcomeFor_from {directory : String} {name : String × Bool} {t : Target}
    (h : m.welcomeFor fs directory name = some t) : t.From m.servlets := by
  simp only [welcomeFor] at h
  split at h
  · cases h
  · rename_i s pm hs
    have hmem := (select_eq_some hs).1
    split at h
    · cases h
      split
      · exact List.ne_nil_of_mem hmem
      · exact hmem
    · cases h

theorem target_from (fs : Files) (m : Mount) (relative : String) :
    (m.target fs relative).From m.servlets := by
  have hwelcome (direct : Target) (hd : direct.From m.servlets) :
      ((m.welcome fs relative).getD direct).From m.servlets := by
    cases hw : m.welcome fs relative with
    | none => exact hd
    | some t =>
      obtain ⟨name, _, hname⟩ := List.exists_of_findSome?_eq_some hw
      exact welcomeFor_from hname
  cases hs : m.select relative with
  | none =>
    simp only [target, hs]
    split
    · exact hwelcome _ trivial
    · trivial
  | some found =>
    obtain ⟨s, pm⟩ := found
    have hmem : s ∈ m.servlets := (select_eq_some hs).1
    simp only [target, hs]
    split
    · exact hwelcome _ hmem
    · exact hmem

/-- Every servlet has one of the contexts bound in the mount. -/
def Served (m : Mount) : Prop :=
  ∀ s ∈ m.servlets, ∃ c ∈ m.contexts, s.context = some c

end Mount

namespace Plan

variable {t : Table}

theorem filters_eq_nil (h : (inMount fs t m relative).view = none) :
    (inMount fs t m relative).filters = [] := by
  simp only [inMount] at h ⊢
  rw [h]
  simp [inScope]

/-- A plan that is not empty has a context of its mount: that of its servlet, or else the one of
highest priority. -/
theorem view_of_not_isEmpty (hm : m.Served) (h : (inMount fs t m relative).isEmpty = false) :
    ∃ c ∈ m.contexts, (inMount fs t m relative).view = some c ∧
      (∀ s, (inMount fs t m relative).target.active = some s → s.context = some c) ∧
        ((inMount fs t m relative).target.active = none → m.top = some c) := by
  have hfrom := m.target_from fs relative
  have hview : (inMount fs t m relative).view =
      ((m.target fs relative).active.bind (·.context)).or m.top := by
    simp only [inMount]
    cases (m.target fs relative).active.bind (·.context) <;> rfl
  change ∃ c ∈ m.contexts, _ ∧ (∀ s, (m.target fs relative).active = some s → _) ∧
    ((m.target fs relative).active = none → _)
  cases ht : m.target fs relative with
  | servlet s pm =>
    rw [ht] at hfrom
    obtain ⟨c, hc, hsc⟩ := hm s hfrom
    refine ⟨c, hc, by simp [hview, ht, Target.active, hsc], ?_, by simp [Target.active]⟩
    rintro s' hs'
    cases hs'
    exact hsc
  | redirect l =>
    rw [ht] at hfrom hview
    obtain ⟨s, hs⟩ := List.exists_mem_of_ne_nil _ hfrom
    obtain ⟨c, hc, _⟩ := hm s hs
    obtain ⟨top, htop⟩ := Option.isSome_iff_exists.1
      (List.isSome_head?.2 (List.ne_nil_of_mem hc))
    exact ⟨top, List.mem_of_head? htop, hview.trans htop, by simp [Target.active], fun _ => htop⟩
  | nothing =>
    rw [ht] at hview
    cases htop : m.top with
    | none =>
      have htarget : (inMount fs t m relative).target = .nothing := ht
      rw [isEmpty, htarget, filters_eq_nil (hview.trans htop)] at h
      cases h
    | some top =>
      exact ⟨top, List.mem_of_head? htop, hview.trans htop, by simp [Target.active], fun _ => rfl⟩

end Plan

theorem Table.below_of_compose {t : Table} {p : Plan} (h : t.compose fs path = some p) :
    ContextPath.below p.mount.path.text path = some p.relative ∧
      p = Plan.inMount fs t p.mount p.relative := by
  unfold compose at h
  split at h
  · cases h
  · obtain ⟨relative, hbelow, rfl⟩ := Option.map_eq_some_iff.1 h
    exact ⟨hbelow, rfl⟩

namespace Deployment

variable {d : Deployment}

theorem mountAt_served (hd : d.Keyed) (hs : d.Sound) (hc : d.contexts.WellFormed)
    (p : ContextPath) : (d.mountAt p).Served := by
  intro s hsm
  obtain ⟨e, he, rfl⟩ := List.mem_map.1 hsm
  have hlisted : e ∈ d.enabledAt p :=
    (List.mem_filter.1 (List.mem_filter.1 he).1).1
  obtain ⟨id, s, hfind, hp, rfl⟩ := mem_enabledAt.1 hlisted
  obtain ⟨c, hcontext, hbound⟩ := contextFor_of_mem hc (hs.mem_physicalOf hd hfind hp)
  exact ⟨c, hbound, hcontext⟩

theorem mem_table_mounts {m : Mount} (h : m ∈ d.table.mounts) : ∃ p, m = d.mountAt p := by
  obtain ⟨p, _, rfl⟩ := List.mem_map.1 h
  exact ⟨p, rfl⟩

theorem compose_eq_some {plan : Plan} (h : d.table.compose fs path = some plan) :
    ∃ p relative, plan = Plan.inMount fs d.table (d.mountAt p) relative := by
  unfold Table.compose at h
  split at h
  · cases h
  · rename_i m hm
    obtain ⟨p, rfl⟩ := mem_table_mounts (List.mem_of_find?_eq_some hm)
    obtain ⟨relative, _, rfl⟩ := Option.map_eq_some_iff.1 h
    exact ⟨p, relative, rfl⟩

theorem kind_of_mem_preprocessors {e : Element} (h : e ∈ d.preprocessors) : e.kind = .filter := by
  simp only [preprocessors, Element.mem_inOrder, List.mem_filter, Bool.and_eq_true] at h
  exact Element.kind_of_isPreprocessor h.2.1

theorem filters_sublist (p : ContextPath) :
    (Plan.inMount fs d.table (d.mountAt p) relative).filters.Sublist
      ((d.enabledAt p).filter (·.kind = .filter)) :=
  (List.filter_sublist.trans List.filter_sublist).trans (List.filter_sublist.filter _)

end Deployment

end ServletContainer
