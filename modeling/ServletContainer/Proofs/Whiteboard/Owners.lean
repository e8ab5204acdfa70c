import ServletContainer.Proofs.Alias.Withdrawal

/-! What a stopped module leaves behind. Its contexts are looked up in the server, its elements among those
that the whiteboard tracks. So its contexts all go, but of its elements only those that the whiteboard has
placed (`Host.stopped_owns_iff`); these are all of them if none comes to the server another way
(`Whiteboard.Covers`). -/
namespace ServletContainer

def Module.Owns (module : Module) (o : Option Element) : Prop := ∃ e, o = some e ∧ e.owner = some module

instance (module : Module) (o : Option Element) : Decidable (module.Owns o) :=
  decidable_of_iff (o.map (·.owner) = some (some module)) Option.map_eq_some_iff

/-- The event registers an element of this number to wait for a context. -/
def Event.Defers (d : Deployment) (id : ElementId) : Event → Prop
  | .registered e selector => id = e.id ∧ selector.resolve d.contextIds = none
  | _ => False

section Owners

variable {module : Module} {cs : List Change} {id : ElementId} {o a b : Option Element}

theorem Module.owns_iff_map : module.Owns o ↔ o.map (·.owner) = some (some module) :=
  Option.map_eq_some_iff.symm

theorem Module.not_owns_none : ¬ module.Owns none := fun ⟨_, h, _⟩ => by cases h

theorem Change.owner_foldl_onElement (h : ¬ Deployment.Adds cs id) (o : Option Element) :
    (cs.foldl (onElement id) o).map (·.owner) =
      if .removeElement id ∈ cs then none else o.map (·.owner) := by
  induction cs generalizing o with
  | nil => simp
  | cons c cs ih =>
    rw [List.foldl_cons, ih fun ⟨e, he, hid⟩ => h ⟨e, List.mem_cons_of_mem c he, hid⟩]
    cases c with
    | addElement e =>
      have hid : id ≠ e.id := fun hid => h ⟨e, List.mem_cons_self, hid.symm⟩
      simp [onElement, hid]
    | removeElement j =>
      rcases eq_or_ne id j with rfl | hj
      · simp [onElement]
      · simp [onElement, hj, hj.symm]
    | retarget j ts =>
      by_cases hj : j = id <;> simp [onElement, hj, Function.comp_def, Element.withTargets]
    | _ => simp [onElement]

theorem Module.Owns.foldl (h : module.Owns a → module.Owns b) :
    module.Owns (cs.foldl (Change.onElement id) a) → module.Owns (cs.foldl (Change.onElement id) b) := by
  refine List.foldl_rel (r := fun a b => module.Owns a → module.Owns b) h fun c _ a b h => ?_
  cases c with
  | addElement e =>
    simp only [Change.onElement]
    split
    · exact fun h => h
    · exact h
  | removeElement j =>
    simp only [Change.onElement]
    split
    · exact fun h => h
    · exact h
  | retarget j ts =>
    simp only [Change.onElement]
    split
    · rintro ⟨_, hretargeted, howner⟩
      obtain ⟨e, he, rfl⟩ := Option.map_eq_some_iff.1 hretargeted
      obtain ⟨f, hf, howner⟩ := h ⟨e, he, howner⟩
      exact ⟨_, Option.map_eq_some_iff.2 ⟨f, hf, rfl⟩, howner⟩
    · exact h
  | _ => exact h

end Owners

namespace Whiteboard

open Deployment

variable {w : Whiteboard} {s : Server} {d d' m : Deployment} {module : Module} {event : Event}
  {id : ElementId} {cs : List Change}

section Stopped

theorem mem_owned {c : ContextId} :
    c ∈ owned d module ↔ ∃ l, d.contexts.find? c = some l ∧ l.owner = some module := by
  rw [owned, OrdMap.mem_keys_filter]
  simp [Contexts.find?]

theorem Keyed.owner_of_context_moduleStopped (hw : w.Keyed)
    (hm : d.Traces (w.respond d (.moduleStopped module)).1 m) {c : ContextId} {l : LogicalContext}
    (hl : m.contexts.find? c = some l) : l.owner ≠ some module := by
  rw [hm.context, hw.context_moduleStopped] at hl
  split at hl
  · cases hl
  · rename_i hkept
    exact fun howner => hkept (mem_owned.2 ⟨l, hl, howner⟩)

theorem owner_of_tracked_moduleStopped {t : Tracked}
    (ht : (w.respond d (.moduleStopped module)).2.tracked.find? id = some t) :
    t.element.owner ≠ some module := by
  rw [respond_moduleStopped, find?_retarget] at ht
  obtain ⟨u, hu, rfl⟩ := Option.map_eq_some_iff.1 ht
  rw [find?_left] at hu
  have howner : u.element.owner ≠ some module := by simpa using (Option.filter_eq_some_iff.1 hu).2
  exact howner

theorem exists_tracked_of_owns (h : module.Owns (w.placed id)) :
    ∃ t, w.tracked.find? id = some t ∧ t.element.owner = some module := by
  obtain ⟨e, he, howner⟩ := h
  obtain ⟨t, ht, hplaced⟩ := Option.bind_eq_some_iff.1 he
  obtain ⟨ts, _, rfl⟩ := Option.map_eq_some_iff.1 hplaced
  exact ⟨t, ht, howner⟩

theorem not_owns_placed_moduleStopped :
    ¬ module.Owns ((w.respond d (.moduleStopped module)).2.placed id) := fun h => by
  obtain ⟨t, ht, howner⟩ := exists_tracked_of_owns h
  exact owner_of_tracked_moduleStopped ht howner

theorem placed_moduleStopped_of_owns (h : module.Owns (w.placed id)) :
    (w.respond d (.moduleStopped module)).2.placed id = none := by
  obtain ⟨t, ht, howner⟩ := exists_tracked_of_owns h
  rw [placed, respond_moduleStopped, find?_retarget, find?_left, ht]
  simp [Option.filter, howner]

/-- Of the elements of a stopped module those go that the whiteboard had placed and has not any more. -/
theorem Keyed.owns_moduleStopped_iff (hw : w.Keyed)
    (hm : d.Becomes (w.respond d (.moduleStopped module)).1 m) (id : ElementId) :
    let next := (w.respond d (.moduleStopped module)).2
    module.Owns (m.placed id) ↔
      module.Owns (d.placed id) ∧ ¬ (w.placed id ≠ none ∧ next.placed id = none) := by
  intro next
  have hplaced : _ = next.placed id := hw.placed_moduleStopped (d := d) id
  rw [hm.traces.placed]
  by_cases hid : w.placed id = none
  · rw [hid] at hplaced
    cases hd : d.placed id with
    | none =>
      -- what is added is placed, and not of the module
      refine iff_of_false (fun howns => ?_) fun h => Module.not_owns_none h.1
      exact not_owns_placed_moduleStopped (hplaced ▸ howns)
    | some e =>
      obtain ⟨hforeign, _⟩ := hw.respond_foreign (by simp [hd]) hid (by simp) hm
      simp [Change.foldl_onElement_of_ne hforeign, hid]
  · have hadds : ¬ Adds (w.respond d (.moduleStopped module)).1 id := fun hadds => by
      obtain ⟨t, ht, hwaits⟩ := hw.adds_moduleStopped hadds
      exact hid (by simp [placed, ht, Tracked.placed, hwaits])
    have hremoved := congrArg (Option.map (·.owner)) hplaced
    rw [Change.owner_foldl_onElement hadds] at hremoved
    rw [Module.owns_iff_map, Change.owner_foldl_onElement hadds, Module.owns_iff_map]
    have hremains : .removeElement id ∉ (w.respond d (.moduleStopped module)).1 ↔
        next.placed id ≠ none := by
      obtain ⟨e, he⟩ := Option.ne_none_iff_exists'.1 hid
      rw [he] at hremoved
      split at hremoved <;> cases hnext : next.placed id <;> simp_all
    simp [hid, ← hremains, and_comm]

end Stopped

section Covering

/-- All that the module has in the server, the whiteboard has placed there. -/
def Covers (w : Whiteboard) (module : Module) (d : Deployment) : Prop :=
  ∀ id, module.Owns (d.placed id) → module.Owns (w.placed id)

/-- What an event makes of the server's elements it makes of those that the whiteboard has placed, unless
one of these is registered to wait. -/
theorem Keyed.placed_respond (hw : w.Keyed) (h : ¬ event.Defers d id) :
    (w.respond d event).1.foldl (Change.onElement id) (w.placed id) = (w.respond d event).2.placed id := by
  cases event with
  | contextRegistered c => exact hw.placed_retarget id
  | contextRemoved c =>
    rw [respond_contextRemoved, List.foldl_append]
    exact hw.placed_retarget id
  | rankChanged c rank => rfl
  | registered e selector => exact placed_registered fun hnone hid => absurd ⟨hid, hnone⟩ h
  | unregistered j => exact placed_unregistered j id
  | moduleStopped module => exact hw.placed_moduleStopped id

theorem changes_of_defers (h : event.Defers d id) : (w.respond d event).1 = [] := by
  cases event with
  | registered e selector =>
    have hnone := h.2
    rw [contextIds] at hnone
    simp [respond, track, hnone]
  | _ => exact h.elim

theorem Covers.handle (h : w.Covers module s.deployment) (hw : w.Keyed)
    (hkeeps : ∀ id, event.Defers s.deployment id → ¬ module.Owns (s.deployment.placed id)) :
    (w.handle s event).2.1.Covers module (w.handle s event).2.2.deployment := by
  obtain ⟨hsame, hdeployment, _⟩ | ⟨hnext, _, hm, _⟩ := w.handle_cases s event
  · rw [hsame, hdeployment]
    exact h
  · intro id howns
    rw [hm.placed] at howns
    by_cases hdefers : event.Defers s.deployment id
    · rw [changes_of_defers hdefers] at howns
      exact absurd howns (hkeeps id hdefers)
    · rw [hnext, ← hw.placed_respond hdefers]
      exact Module.Owns.foldl (h id) howns

theorem Covers.commits (h : w.Covers module d) (hcs : ∀ e, .addElement e ∈ cs → e.owner ≠ some module)
    (hc : d.Commits cs d') : w.Covers module d' := by
  rintro id ⟨e, he, howner⟩
  rw [hc.traces.placed] at he
  exact h id (Change.exists_of_foldl_onElement (fun _ _ howner => howner) hcs he howner)

end Covering

end Whiteboard

theorem Aliases.deployment_call (as : Aliases) (s : Server) (c : Call) :
    (as.call s c).2.deployment = s.deployment ∨ ∃ cs,
      (∀ e, .addElement e ∈ cs → ∃ owner a target context,
        c = .register owner a target context ∧ e.owner = some owner) ∧
      s.deployment.Commits cs (as.call s c).2.deployment := by
  cases c with
  | register owner a target context =>
    obtain ⟨t, ht, heq⟩ | ⟨_, _, label, report, t, hsubmit, heq⟩ :=
      as.register_cases s owner a target context <;> rw [call, heq]
    · exact .inl ht.deployment
    · have hcommits := (consumes_counted s).deployment ▸ Server.submit_ok hsubmit
      refine .inr ⟨_, fun e he => ?_, hcommits⟩
      cases List.mem_singleton.1 he
      exact ⟨owner, a, target, context, rfl, rfl⟩
  | unregister owner a =>
    simp only [call, unregister]
    split
    · exact .inl rfl
    · split <;> rename_i hsubmit
      · exact .inr ⟨_, by simp, Server.submit_ok hsubmit⟩
      · exact .inl (Server.submit_error hsubmit)
  | unregisterAll owner =>
    simp only [call, unregisterAll]
    split
    · exact .inl rfl
    · split <;> rename_i hsubmit
      · exact .inr ⟨_, by simp, Server.submit_ok hsubmit⟩
      · exact .inl (Server.submit_error hsubmit)

namespace Host

/-- A step, or a batch that somebody else submits. -/
inductive Turn where
  | step (b : Step)
  | submit (b : Batch)

def turn (x : Host) : Turn → Host
  | .step b => x.step b
  | .submit b => { x with server := (x.server.submit b).2 }

def play (x : Host) (turns : List Turn) : Host := turns.foldl turn x

/-- An element of the module comes to the server past the whiteboard, or one that is in the server is
registered to wait. -/
def Evades (module : Module) (x : Host) : Turn → Prop
  | .submit b => ∃ e, .addElement e ∈ b.changes ∧ e.owner = some module
  | .step (.event event) =>
    ∃ id, event.Defers x.server.deployment id ∧ module.Owns (x.server.deployment.placed id)
  | .step (.call (.register owner _ _ _)) => owner = module
  | _ => False

variable {x : Host} {module : Module} {turns : List Turn}

theorem keyed_turn (h : x.whiteboard.Keyed) (t : Turn) : (x.turn t).whiteboard.Keyed := by
  cases t with
  | step b =>
    cases b with
    | event event => exact h.handle
    | start | stop | call | meanwhile => exact h
  | submit b => exact h

theorem deployment_turn {t : Turn} (ht : ¬ x.Evades module t) (hevent : ∀ event, t ≠ .step (.event event)) :
    (x.turn t).whiteboard = x.whiteboard ∧
      ((x.turn t).server.deployment = x.server.deployment ∨ ∃ cs,
        (∀ e, .addElement e ∈ cs → e.owner ≠ some module) ∧
        x.server.deployment.Commits cs (x.turn t).server.deployment) := by
  cases t with
  | submit b =>
    refine ⟨rfl, (x.server.deployment_submit b).imp_right fun h => ⟨_, fun e he howner => ?_, h⟩⟩
    exact ht ⟨e, he, howner⟩
  | step b =>
    cases b with
    | start =>
      obtain hsame | ⟨c, hcommits⟩ := x.server.deployment_start
      · exact ⟨rfl, .inl hsame⟩
      · exact ⟨rfl, .inr ⟨_, by simp, hcommits⟩⟩
    | stop => exact ⟨rfl, x.server.deployment_stop.imp_right fun h => ⟨_, by simp [Server.shutdown], h⟩⟩
    | event event => exact absurd rfl (hevent event)
    | call c =>
      obtain hsame | ⟨cs, hcs, hcommits⟩ := x.aliases.deployment_call x.server c
      · exact ⟨rfl, .inl hsame⟩
      · refine ⟨rfl, .inr ⟨cs, fun e he howner => ?_, hcommits⟩⟩
        obtain ⟨owner, a, target, context, rfl, hregistered⟩ := hcs e he
        exact ht (Option.some.inj (hregistered.symm.trans howner))
    | meanwhile => exact ⟨rfl, .inl rfl⟩

theorem covers_turn (h : x.whiteboard.Covers module x.server.deployment) (hw : x.whiteboard.Keyed)
    {t : Turn} (ht : ¬ x.Evades module t) :
    (x.turn t).whiteboard.Covers module (x.turn t).server.deployment := by
  by_cases hevent : ∃ event, t = .step (.event event)
  · obtain ⟨event, rfl⟩ := hevent
    exact h.handle hw fun id hdefers howns => ht ⟨id, hdefers, howns⟩
  · obtain ⟨hwhiteboard, hsame | ⟨cs, hcs, hcommits⟩⟩ := deployment_turn ht (not_exists.1 hevent)
    · rw [hwhiteboard, hsame]
      exact h
    · rw [hwhiteboard]
      exact h.commits hcs hcommits

theorem keyed_play (s : Server) (turns : List Turn) : (play { server := s } turns).whiteboard.Keyed :=
  List.foldlRecOn turns turn (motive := fun x => x.whiteboard.Keyed)
    (fun _ _ h => nomatch h) fun _ h t _ => keyed_turn h t

/-- Along a run, the whiteboard covers a module that does not evade it. -/
theorem covers_play {s : Server} (hs : ∀ id, s.deployment.placed id = none)
    (h : ∀ ts t, ts ++ [t] <+: turns → ¬ (play { server := s } ts).Evades module t) :
    let x := play { server := s } turns
    x.whiteboard.Covers module x.server.deployment := by
  have hnew : Whiteboard.Covers {} module s.deployment := by
    rintro id ⟨e, he, _⟩
    simp [hs] at he
  refine foldl_prefix_induction (f := turn) (P := fun x => x.whiteboard.Covers module x.server.deployment)
    hnew (fun ts t hts hcovers => ?_) turns List.prefix_rfl
  exact covers_turn hcovers (keyed_play s ts) (h ts t hts)

/-- Once a module was stopped, none of its contexts is left, and the whiteboard tracks none of its
elements. But of those in the server only the ones are gone that the whiteboard had placed there; these
are all if the module never evaded it. -/
theorem stopped_owns_iff (config : ServerConfig) (engine : Engine) (pool : Pool) (turns : List Turn)
    (module : Module) :
    let stage := play { server := .new config engine pool }
    let x := stage turns
    let y := x.step (.event (.moduleStopped module))
    (x.whiteboard.handle x.server (.moduleStopped module)).1.toBool →
      (∀ c l, y.server.deployment.contexts.find? c = some l → l.owner ≠ some module) ∧
      (∀ id t, y.whiteboard.tracked.find? id = some t → t.element.owner ≠ some module) ∧
      (∀ id, module.Owns (y.server.deployment.placed id) ↔
        module.Owns (x.server.deployment.placed id) ∧
          ¬ (x.whiteboard.placed id ≠ none ∧ y.whiteboard.placed id = none)) ∧
      ((∀ ts t, ts ++ [t] <+: turns → ¬ (stage ts).Evades module t) →
        ∀ id, ¬ module.Owns (y.server.deployment.placed id)) := by
  intro stage x y hok
  have hw : x.whiteboard.Keyed := keyed_play _ turns
  obtain ⟨_, _, hfails⟩ | ⟨hnext, ⟨m, hm⟩, htraces, _⟩ :=
    x.whiteboard.handle_cases x.server (.moduleStopped module)
  · simp [hfails] at hok
  have hwhiteboard : y.whiteboard = (x.whiteboard.respond x.server.deployment _).2 := hnext
  have hplaced (id : ElementId) : y.server.deployment.placed id = m.placed id :=
    (htraces.placed id).trans (hm.traces.placed id).symm
  have howns (id : ElementId) := hw.owns_moduleStopped_iff hm id
  simp only [← hplaced, ← hwhiteboard] at howns
  refine ⟨fun c l => hw.owner_of_context_moduleStopped htraces, fun id t ht => ?_, howns,
    fun hevades id hid => ?_⟩
  · exact Whiteboard.owner_of_tracked_moduleStopped (hwhiteboard ▸ ht)
  · obtain ⟨hdeployed, hkept⟩ := (howns id).1 hid
    have hcovered := covers_play (fun _ => rfl) hevades id hdeployed
    refine hkept ⟨fun hnone => Module.not_owns_none (hnone ▸ hcovered), ?_⟩
    rw [hwhiteboard, Whiteboard.placed_moduleStopped_of_owns hcovered]

/-- A module that registers a context and, for this, an element. -/
theorem stopped_owns_iff_registered :
    let module : Module := ⟨1, "app"⟩
    let context : LogicalContext := ⟨"main", ⟨"/m"⟩, 0, 2, some module, .standard, ∅, {}⟩
    let turns : List Turn := [.step .start, .step (.event (.contextRegistered context)),
      .step (.event (.registered { Element.catchAll 1 with owner := some module } (.named ["main"])))]
    let stage := play { server := .new {} .idle {} }
    let x := stage turns
    let y := x.step (.event (.moduleStopped module))
    (x.whiteboard.handle x.server (.moduleStopped module)).1.toBool ∧
      (∀ ts t, ts ++ [t] <+: turns → ¬ (stage ts).Evades module t) ∧
      module.Owns (x.server.deployment.placed 1) ∧ ∀ id, ¬ module.Owns (y.server.deployment.placed id) := by
  intro module context turns stage x y
  have hok : (x.whiteboard.handle x.server (.moduleStopped module)).1.toBool := by decide +kernel
  have hfaces : ∀ ts t, ts ++ [t] <+: turns → ¬ (stage ts).Evades module t := by
    rintro ts t ⟨rest, h⟩
    obtain _ | ⟨_, _ | ⟨_, _ | ⟨_, ts⟩⟩⟩ := ts <;> simp [turns] at h
    · rw [h.1]
      exact fun h => h
    · rw [h.2.1]
      exact fun ⟨_, hdefers, _⟩ => hdefers
    · obtain ⟨rfl, rfl, rfl, _⟩ := h
      rintro ⟨_, ⟨_, hnone⟩, _⟩
      have hresolved : (Selector.named ["main"]).resolve
          (stage [.step .start, .step (.event (.contextRegistered context))]).server.deployment.contextIds =
            some ["main"] := by decide +kernel
      cases hresolved.symm.trans hnone
  have hgone := (stopped_owns_iff {} .idle {} turns module hok).2.2.2 hfaces
  refine ⟨hok, hfaces, by decide +kernel, ?_⟩
  dsimp only [y, x, stage]
  exact hgone

/-- A module that has submitted its context together with an element, and one that has registered under an
alias: stopping it takes the context away, but the element stays and is enabled. -/
theorem element_outlasts_module :
    let module : Module := ⟨1, "app"⟩
    let context : LogicalContext := ⟨"main", ⟨"/m"⟩, 0, 2, some module, .standard, ∅, {}⟩
    let submitted : Batch :=
      ⟨"add", [.addContext context, .addElement { Element.catchAll 1 with owner := some module }]⟩
    let stage := play { server := .new {} .idle {} }
    ∀ x ∈ [stage [.step .start, .submit submitted],
        stage [.step .start, .step (.call (.register module "/a" (.resources "www") none))]],
      let y := x.step (.event (.moduleStopped module))
      (x.whiteboard.handle x.server (.moduleStopped module)).1.toBool ∧
        y.server.deployment.contexts.find? "main" = none ∧
        module.Owns (y.server.deployment.placed 1) ∧ y.server.deployment.isEnabled 1 := by
  decide +kernel

end Host

end ServletContainer
