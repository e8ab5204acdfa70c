import ServletContainer.Dispatch.Execute
import ServletContainer.Proofs.Context.Resource
import ServletContainer.Proofs.Dispatch.Plan
import ServletContainer.Proofs.Pattern

/-! The files that resources are answered from. What a match leaves to look up is an end of the path
that was matched, whatever pattern matched it (`Patterns.trails_bestMatch`); what is matched is the
request path below the mount or a welcome file in the directory that it names
(`Mount.select_of_target`). -/
namespace ServletContainer

open Files Text

variable {path relative : String} {pm : PatternMatch} {s : ActiveServlet} {m : Mount}

/-- An end of a path, from a slash on. -/
def Files.Tail (path tail : String) : Prop := Continues tail ∧ tail.toList <:+ path.toList

/-- What a match leaves to look up. -/
def PatternMatch.rest (pm : PatternMatch) : String := pm.pathInfo.getD pm.servletPath

/-- What is left to look up has the segments of an end of the path. -/
def PatternMatch.Trails (pm : PatternMatch) (path : String) : Prop :=
  Continues pm.rest ∧ ∃ tail, Tail path tail ∧ segments pm.rest = segments tail

theorem Files.Continues.trails (hpath : Continues path) (h : pm.rest = path) : pm.Trails path := by
  rw [PatternMatch.Trails, h]
  exact ⟨hpath, path, ⟨hpath, List.suffix_rfl⟩, rfl⟩

theorem UrlPattern.trails_matches? {u : UrlPattern} (hpath : Continues path)
    (h : u.matches? path = some pm) : pm.Trails path := by
  cases matches?_eq_some_iff.1 h with
  | mount hempty =>
    -- the mount itself, with or without its slash: nothing is left of either
    refine ⟨.inr rfl, path, ⟨hpath, List.suffix_rfl⟩, ?_⟩
    obtain rfl | rfl := hempty <;> rfl
  | @subtree top rest htop hrest =>
    by_cases hempty : rest = ""
    · subst hempty
      exact hpath.trails (by simp [PatternMatch.rest, htop])
    · have htail : Tail path rest := ⟨hrest, top.toList, by rw [htop, String.toList_append]⟩
      rw [if_neg hempty]
      exact ⟨hrest, rest, htail, rfl⟩
  | _ => exact hpath.trails rfl

theorem Patterns.trails_bestMatch {ps : Patterns} (hpath : Continues path)
    (h : ps.bestMatch path = some pm) : pm.Trails path := by
  rcases bestMatch_eq_some h with ⟨u, _, hu, _⟩ | ⟨rfl, _⟩
  · exact u.trails_matches? hpath hu
  · exact hpath.trails rfl

namespace Mount

/-- The paths of the welcome files in the directory that a path below the mount names. -/
def welcomePaths (m : Mount) (relative : String) : List String :=
  m.welcomeNames.map fun name =>
    (if relative.toList.getLast? = some '/' then relative else relative ++ "/") ++ name.1

/-- The paths below the mount that are matched for a request. -/
def tried (m : Mount) (relative : String) : List String := relative :: m.welcomePaths relative

theorem continues_tried (h : Continues relative) {candidate : String}
    (hc : candidate ∈ m.tried relative) : Continues candidate := by
  obtain rfl | hc := List.mem_cons.1 hc
  · exact h
  · obtain ⟨name, _, rfl⟩ := List.mem_map.1 hc
    obtain rfl | ⟨rest, rfl⟩ := h.eq
    · exact .inr (by simp)
    · split <;> exact .inr (by simp)

theorem select_of_welcomeFor {fs : Files} {directory : String} {name : String × Bool}
    (h : m.welcomeFor fs directory name = some (.servlet s pm)) :
    m.select (directory ++ name.1) = some (s, pm) := by
  simp only [welcomeFor] at h
  split at h
  · cases h
  · rename_i hs
    split at h
    · split at h <;> cases h
      exact hs
    · cases h

/-- A servlet that is the target of a path below the mount was selected for one of the paths that were
tried. -/
theorem select_of_target {fs : Files} (h : m.target fs relative = .servlet s pm) :
    ∃ candidate ∈ m.tried relative, m.select candidate = some (s, pm) := by
  have hcases (direct : Target) (precise : Prop) [Decidable precise]
      (hd : direct = .servlet s pm → m.select relative = some (s, pm))
      (h : (if precise then (m.welcome fs relative).getD direct else direct) = .servlet s pm) :
      ∃ candidate ∈ m.tried relative, m.select candidate = some (s, pm) := by
    split at h
    · cases hw : m.welcome fs relative with
      | none =>
        rw [hw] at h
        exact ⟨relative, List.mem_cons_self, hd h⟩
      | some t =>
        rw [hw] at h
        obtain rfl : t = .servlet s pm := h
        obtain ⟨name, hname, hfor⟩ := List.exists_of_findSome?_eq_some hw
        exact ⟨_, List.mem_cons_of_mem _ (List.mem_map_of_mem hname), select_of_welcomeFor hfor⟩
    · exact ⟨relative, List.mem_cons_self, hd h⟩
  cases hs : m.select relative with
  | none =>
    simp only [target, hs] at h
    exact hcases _ _ (fun hd => by cases hd) h
  | some found =>
    simp only [target, hs] at h
    refine hcases _ _ (fun hd => ?_) h
    cases hd
    exact hs

end Mount

theorem ContextPath.tail_of_below {mount : String} (h : below mount path = some relative) :
    Tail path relative := by
  have hbelow : below (mk mount).text path = some relative := h
  have hwhole : path = (mk mount).lead ++ relative := (below_eq_some_iff.1 hbelow).2
  exact ⟨continues_of_below hbelow, (mk mount).lead.toList, by rw [hwhole, String.toList_append]⟩

theorem Table.tail_of_compose {t : Table} {fs : Files} {p : Plan} (h : t.compose fs path = some p) :
    Tail path p.relative ∧ p.target = p.mount.target fs p.relative := by
  obtain ⟨hbelow, hp⟩ := t.below_of_compose h
  exact ⟨ContextPath.tail_of_below hbelow, congrArg Plan.target hp⟩

/-- What a resource of a directory answers depends on one file at most. -/
theorem Resource.service_congr {env env' : Surroundings} {folder : String} {x : Exchange} {v : View}
    {base : Option String} {rule : Option HeaderRule} (hv : x.request.view = some v)
    (hh : v.context.helper = .directory base rule)
    (hfiles : ∀ f, v.realPath (nameOf folder x.request.servletPath x.request.pathInfo) = some f →
      env'.files.read? f = env.files.read? f) :
    service env' folder x = service env folder x := by
  have hresource (e : Surroundings) (name : String) : v.resource e.files name =
      (v.realPath name).filter fun f => (e.files.read? f).isSome := by
    rw [View.resource, hh]
    simp only [Helper.resource, View.realPath, hh]
    rfl
  have hread (name : String)
      (hfiles : ∀ f, v.realPath name = some f → env'.files.read? f = env.files.read? f) :
      (v.resource env'.files name).bind env'.files.read? =
        (v.resource env.files name).bind env.files.read? := by
    rw [hresource, hresource]
    cases hf : v.realPath name with
    | none => rfl
    | some f =>
      simp only [Option.filter_some, hfiles f hf]
      split
      · exact hfiles f hf
      · rfl
  simp only [service, hv, hread _ hfiles]

namespace Dispatch

/-- A request for a resource below the directory of its context reads one file at most, and that is
below the directory and the resource's folder: its segments are those of the directory, those of the
folder and those of an end of the request path, or of the path of a welcome file. If one of these
after the directory leads up, the request is refused. -/
theorem runTarget_below (t : Table) (env : Surroundings) (path : String) (p : Plan)
    (s : ActiveServlet) (pm : PatternMatch) (folder : String) (c : LogicalContext) (base : String)
    (rule : Option HeaderRule) (hp : t.compose env.files path = some p)
    (htarget : p.target = .servlet s pm) (hd : s.element.details = .resource folder)
    (hc : s.context = some c) (hh : c.helper = .directory (some base) rule) :
    let found := c.helper.realPath (Resource.nameOf folder pm.servletPath pm.pathInfo)
    (∃ whole tail, (whole = path ∨ whole ∈ p.mount.welcomePaths p.relative) ∧ Tail whole tail ∧
      (found = none ↔ ".." ∈ segments folder ++ segments tail) ∧
      ∀ f, found = some f → Below base (segments folder ++ segments tail) f) ∧
    ∀ env' : Surroundings, (∀ f, found = some f → env'.files.read? f = env.files.read? f) →
      ∀ x, runTarget env' p x = runTarget env p x := by
  intro found
  have hfound : found = Helper.belowBase base (folder ++ pm.rest) := by
    simp only [found, hh]
    rfl
  refine ⟨?_, fun env' hfiles x => ?_⟩
  · obtain ⟨hrelative, hmount⟩ := t.tail_of_compose hp
    obtain ⟨candidate, hcandidate, hselect⟩ := p.mount.select_of_target (hmount.symm.trans htarget)
    obtain ⟨hrest, tail, htail, hsegments⟩ := Patterns.trails_bestMatch
      (Mount.continues_tried hrelative.1 hcandidate) (Mount.select_eq_some hselect).2
    have hname : segments (folder ++ pm.rest) = segments folder ++ segments tail := by
      rw [segments_append hrest, hsegments]
    have hwhole : ∃ whole, (whole = path ∨ whole ∈ p.mount.welcomePaths p.relative) ∧
        Tail whole tail := by
      obtain rfl | hwelcome := List.mem_cons.1 hcandidate
      · exact ⟨path, .inl rfl, htail.1, htail.2.trans hrelative.2⟩
      · exact ⟨candidate, .inr hwelcome, htail⟩
    obtain ⟨whole, hwhole, hend⟩ := hwhole
    refine ⟨whole, tail, hwhole, hend, ?_⟩
    rw [hfound, ← hname]
    exact ⟨Helper.belowBase_eq_none_iff, fun f => Helper.below_of_belowBase⟩
  · simp only [runTarget, htarget, invoke, hd]
    refine Resource.service_congr (v := ⟨c, s.element.owner⟩) ?_ hh hfiles
    simp [Exchange.setRequest, hc]

/-- A request below a folder that is mapped as a subtree: a file beside the folder is not read. -/
theorem runTarget_below_subtree :
    let c : LogicalContext := { id := "c", path := ⟨"/c"⟩, order := 1,
                                helper := .directory (some "/files") none }
    let e : Element := { id := 1, name := "r", patterns := .urls [.subtree "/r"], targets := ["c"],
                         rank := 0, serviceId := 0, dynamic := false, owner := none, init := ∅,
                         details := .resource "/open" }
    let s : ActiveServlet := ⟨e, some c⟩
    let m : Mount := ⟨⟨"/c"⟩, [c], [s], [], [], []⟩
    let t : Table := ⟨[m], []⟩
    let files : Files := ⟨"", ∅⟩
    let env : Surroundings := ⟨files, fun _ => ""⟩
    let env' : Surroundings := ⟨files.write "/files/secret" [0], fun _ => ""⟩
    let p := Plan.inMount files t m "/r/a"
    let pm : PatternMatch := ⟨.subtree 2, "/r", some "/a"⟩
    let found := c.helper.realPath (Resource.nameOf "/open" pm.servletPath pm.pathInfo)
    t.compose files "/c/r/a" = some p ∧ p.target = .servlet s pm ∧ found = some "/files/open/a" ∧
      (∃ segs, Below "/files" segs "/files/open/a") ∧
      ∀ x, runTarget env' p x = runTarget env p x := by
  intro c e s m t files env env' p pm found
  have hp : t.compose files "/c/r/a" = some p := by decide +kernel
  have htarget : p.target = .servlet s pm := by decide +kernel
  have hfound : found = some "/files/open/a" := by decide +kernel
  have hread : env'.files.read? "/files/open/a" = env.files.read? "/files/open/a" := by
    decide +kernel
  obtain ⟨⟨_, _, _, _, _, hbelow⟩, hreads⟩ :=
    runTarget_below t env "/c/r/a" p s pm "/open" c "/files" none hp htarget rfl rfl rfl
  refine ⟨hp, htarget, hfound, ⟨_, hbelow _ hfound⟩, hreads env' fun f hf => ?_⟩
  obtain rfl : "/files/open/a" = f := Option.some.inj (hfound.symm.trans hf)
  exact hread

end Dispatch

end ServletContainer
