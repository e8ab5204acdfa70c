import ServletContainer.Proofs.Deployment.Entries
import ServletContainer.Proofs.Dispatch.Selection
import ServletContainer.Proofs.Server.Arbitration
import ServletContainer.Server.Service

/-! Routing on a server. Whatever has been done, a request goes to the mount with the longest path that
contains its own (`run_select_mount`), within the mount to the servlet whose match counts most
(`run_select_servlet`), and an error goes to the page for its kind, its status or the class of its status
(`run_error_page`). -/
namespace ServletContainer

open Deployment Files

namespace Deployment

def MappingsRead (d : Deployment) : Prop := ∀ id e, d.placed id = some e → e.MappingRead

variable {d d' : Deployment} {cs : List Change}

theorem Commits.mappingsRead (h : d.Commits cs d') (hd : d.MappingsRead)
    (hcs : ∀ e, .addElement e ∈ cs → e.MappingRead) : d'.MappingsRead :=
  h.traces.forall_placed (fun _ _ hread => hread) hcs hd

theorem MappingsRead.of_mem_enabledAt (hd : d.MappingsRead) {p : ContextPath} {e : Element}
    (he : e ∈ d.enabledAt p) : e.MappingRead := by
  obtain ⟨id, s, hs, _, rfl⟩ := mem_enabledAt.1 he
  have hplaced : d.placed id = some s.element.original := by rw [placed, hs, Option.map_some]
  have hread : s.element.original.MappingRead := hd id _ hplaced
  exact hread

end Deployment

variable (config : ServerConfig) (engine : Engine) (pool : Pool) {steps : List Server.Step}

theorem run_mappingsRead
    (h : ∀ b, .submit b ∈ steps → ∀ e, .addElement e ∈ b.changes → e.MappingRead) :
    ((Server.new config engine pool).run steps).deployment.MappingsRead :=
  Server.run_induction (A := fun cs => ∀ e, .addElement e ∈ cs → e.MappingRead)
    (fun _ _ _ _ he => by cases he) (fun _ hcs e he => absurd he (hcs e))
    (fun _ _ _ hcs hd h => h.mappingsRead hd hcs) config engine pool h

/-- Of the mounts that contain a request path the one with the longest path is selected, and none if there
is none. What is left of the path in a plan, put after the path of the mount, is the request path; it is
empty or starts with a slash. -/
theorem run_select_mount (steps : List Server.Step) (fs : Files) (path : String) :
    let t := ((Server.new config engine pool).run steps).table
    (∀ m, t.select path = some m ↔ t.Selects path m) ∧
      (t.select path = none ↔ ∀ m ∈ t.mounts, ¬ m.path.Contains path) ∧
      (t.compose fs path = none ↔ t.select path = none) ∧
      ∀ plan, t.compose fs path = some plan → t.select path = some plan.mount ∧
        plan.mount.path.lead ++ plan.relative = path ∧ Continues plan.relative := by
  intro t
  refine ⟨fun m => select_eq_some_iff, select_eq_none_iff, compose_eq_none_iff, fun plan hplan => ?_⟩
  obtain ⟨m, relative, hm, hpath, rfl⟩ := compose_eq_some_iff.1 hplan
  have hbelow : ContextPath.below m.path.text path = some relative :=
    ContextPath.below_eq_some_iff.2 ⟨hm.2.1, hpath⟩
  exact ⟨select_eq_some_iff.2 hm, hpath.symm, ContextPath.continues_of_below hbelow⟩

/-- Of the servlets and resources of a mount no two match a path in the same way, unless by regular
expressions. The one that is selected is there, matches the path, and outdoes all others that match it:
exact matches count before subtrees, longer subtrees before shorter ones, then come extensions, regular
expressions and the fallback, and the order of preference decides between regular expressions alone. No
url pattern of any of them matches the path in a better way. -/
theorem run_select_servlet
    (h : ∀ b, .submit b ∈ steps → ∀ e, .addElement e ∈ b.changes → e.MappingRead) :
    let t := ((Server.new config engine pool).run steps).table
    ∀ m ∈ t.mounts, m.Unambiguous ∧ ∀ path,
      (m.select path = none ↔ ∀ s ∈ m.servlets, s.element.matchPath path = none) ∧
        ∀ s pm, (m.select path = some (s, pm) ↔
            s ∈ m.servlets ∧ s.element.matchPath path = some pm ∧
              ∀ s' ∈ m.servlets, s' ≠ s → ∀ pm', s'.element.matchPath path = some pm' →
                Mount.Outdoes s pm s' pm') ∧
          (m.select path = some (s, pm) →
            ∀ s' ∈ m.servlets, ∀ u ∈ s'.element.patterns.urlPatterns,
              ∀ pm', u.matches? path = some pm' → ¬ pm'.kind.Beats pm.kind) := by
  intro t m hm
  obtain ⟨hk, hs⟩ := run_sound config engine pool steps
  have hread := run_mappingsRead config engine pool h
  obtain ⟨p, rfl⟩ := mem_table_mounts hm
  have hranked := hk.ranked_servlets p
  have hunambiguous := hs.unambiguous hk fun e => hread.of_mem_enabledAt (p := p)
  exact ⟨hunambiguous, fun path => ⟨Mount.select_eq_none_iff, fun s pm =>
    ⟨Mount.select_eq_some_iff hranked hunambiguous, fun hselect s' hs' u hu pm' hpm' =>
      Mount.not_beats_of_select hranked hunambiguous hselect hs' hu hpm'⟩⟩⟩

/-- Two servlets that match by regular expressions, one with subtrees and an extension, and one for all
other paths. -/
theorem run_select_servlet_ranked :
    let servlet (id : ElementId) (urls regexes : List String) (rank : Int) :=
      ({ kind := .servlet, name := some s!"servlet{id}", source := some (.servlet (.given .echo)),
         urlPatterns := urls, regexPatterns := regexes, rank } : Builder).element id
    let built := [servlet 1 ["/"] [] 0, servlet 2 ["/docs/*", "/docs/old/*", "*.txt"] [] 0,
      servlet 3 [] ["^/r"] 0, servlet 4 [] ["r"] 5]
    let steps := [.start, .submit ⟨"add", (built.filterMap (·.toOption)).map .addElement⟩]
    let t := ((Server.new {} .idle {}).run steps).table
    let chosen (m : Mount) (path : String) := (m.select path).map fun (s, pm) => (s.element.id, pm.kind)
    (∀ b, .submit b ∈ steps → ∀ e, .addElement e ∈ b.changes → e.MappingRead) ∧
      (∀ m ∈ t.mounts, m.Unambiguous) ∧ ∃ m ∈ t.mounts,
        chosen m "/docs/old/r.txt" = some (2, .subtree 9) ∧ chosen m "/r.txt" = some (2, .extension) ∧
        chosen m "/r" = some (4, .regex) ∧ chosen m "/" = some (1, .fallback) := by
  intro servlet built steps t chosen
  have hread : ∀ b, .submit b ∈ steps → ∀ e, .addElement e ∈ b.changes → e.MappingRead := by
    intro b hb e he
    obtain rfl : b = ⟨"add", (built.filterMap (·.toOption)).map .addElement⟩ := by
      simpa [steps] using hb
    obtain ⟨f, hf, heq⟩ := List.mem_map.1 he
    obtain rfl := Change.addElement.inj heq
    obtain ⟨r, hr, hrf⟩ := List.mem_filterMap.1 hf
    have hbuilt : ∃ id urls regexes rank, servlet id urls regexes rank = r := by
      simp only [built, List.mem_cons, List.not_mem_nil, or_false] at hr
      rcases hr with rfl | rfl | rfl | rfl <;> exact ⟨_, _, _, _, rfl⟩
    obtain ⟨id, urls, regexes, rank, rfl⟩ := hbuilt
    cases helement : servlet id urls regexes rank with
    | error _ =>
      rw [helement] at hrf
      cases hrf
    | ok g =>
      rw [helement] at hrf
      cases hrf
      exact Builder.mappingRead helement
  exact ⟨hread, fun m hm => (run_select_servlet {} .idle {} hread m hm).1,
    t.mounts.head (by decide +kernel), List.head_mem _, by decide +kernel⟩

/-- An error page is one of the mount if it is enabled there, and each error key is held by one of them at
most. An error is answered by the page that holds its kind, or else by the one that holds its status, or
else by the one that holds the class of its status, in whatever order the pages and their keys are. -/
theorem run_error_page (steps : List Server.Step) :
    let d := ((Server.new config engine pool).run steps).deployment
    ∀ m ∈ d.table.mounts,
      (∀ e, e ∈ m.errorPages ↔ e.kind = .errorPage ∧ ∃ id s, d.elements.find? id = some s ∧
        m.path ∈ s.enabledIn.elems ∧ s.element = e) ∧
      (∀ k l l', ∀ e ∈ m.errorPages, ∀ f ∈ m.errorPages, e.Answers k l → f.Answers k l' → e = f) ∧
      (∀ k l, m.located k = some l ↔ ∃ e ∈ m.errorPages, e.Answers k l) ∧
      ∀ kind status,
        m.errorPage kind status = ((kind.map .exception).bind m.located).or
          ((m.located (.code status)).or ((Mount.statusClass status).bind m.located)) ∧
        ∀ m', m.SamePages m' → m'.errorPage kind status = m.errorPage kind status := by
  intro d m hm
  obtain ⟨hk, hs⟩ := run_sound config engine pool steps
  obtain ⟨p, rfl⟩ := mem_table_mounts hm
  have hdecided := hs.decided hk (p := p)
  refine ⟨fun e => ?_, fun k l l' e he f hf hek hfk => ?_, fun k l => hdecided.located_eq_some_iff,
    fun kind status => ⟨hdecided.errorPage_eq kind status, fun m' h =>
      hdecided.errorPage_congr h kind status⟩⟩
  · rw [mem_errorPages_mountAt, mem_enabledAt, and_comm]
    rfl
  · exact hs.eq_of_answers hk (mem_errorPages_mountAt.1 he).1 (mem_errorPages_mountAt.1 hf).1 hek hfk

end ServletContainer
