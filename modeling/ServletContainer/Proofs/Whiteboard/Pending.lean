import ServletContainer.Proofs.Whiteboard.Tracking

/-! Elements that wait for a context. An element that is deployed and registered again, for contexts of
which none exists, stays deployed and is held to wait (`Mislays`). That is the only way in which a waiting
element comes to be deployed (`pending_absent_iff`). -/
namespace ServletContainer

namespace Whiteboard

variable {w : Whiteboard} {s : Server} {d m : Deployment} {event : Event} {id : ElementId}
  {contexts : OrdSet ContextId} {copy : Nat}

/-- No element that waits is deployed. -/
def Absent (w : Whiteboard) (d : Deployment) : Prop :=
  ∀ id ∈ w.pending, d.elements.contains id = false

/-- The event registers an element that is deployed, for contexts of which none exists. -/
def Mislays (d : Deployment) : Event → Prop
  | .registered e selector => selector.resolve d.contextIds = none ∧ d.elements.contains e.id
  | _ => False

section Respond

theorem Absent.placed (h : w.Absent d) (hid : id ∈ w.pending) : d.placed id = none :=
  Deployment.contains_eq_false.1 (h id hid)

theorem mem_pending_left {module : Module} (h : id ∈ (w.left module).pending) : id ∈ w.pending := by
  obtain ⟨t, ht, hwaits⟩ := mem_pending.1 h
  rw [find?_left] at ht
  exact mem_pending.2 ⟨t, (Option.filter_eq_some_iff.1 ht).1, hwaits⟩

theorem Keyed.absent_retarget (hw : w.Keyed) {o : Option Element} (ho : id ∈ w.pending → o = none)
    (h : id ∈ (w.retarget contexts copy).2.pending) :
    (w.retarget contexts copy).1.foldl (Change.onElement id) o = none := by
  obtain ⟨u, hu, hnone⟩ := mem_pending.1 h
  rw [find?_retarget] at hu
  obtain ⟨t, ht, rfl⟩ := Option.map_eq_some_iff.1 hu
  have hresolve : t.selector.resolve contexts = none := hnone
  rw [hw.foldl_retarget, ht, Option.bind_some, hresolve]
  cases htargets : t.targets with
  | none =>
    have hsame : t.change id none copy = none := by simp [Tracked.change, htargets]
    rw [hsame]
    exact ho (mem_pending.2 ⟨t, ht, htargets⟩)
  | some ts =>
    have hremoved : t.change id none copy = some (.removeElement id) := by
      simp [Tracked.change, htargets]
    rw [hremoved]
    exact if_pos rfl

theorem Absent.contextRegistered {c : LogicalContext} (h : w.Absent d) (hw : w.Keyed)
    (hm : d.Traces (w.respond d (.contextRegistered c)).1 m) :
    (w.respond d (.contextRegistered c)).2.Absent m := by
  intro id hid
  rw [Deployment.contains_eq_false, hm.placed, respond_contextRegistered, List.foldl_cons]
  exact hw.absent_retarget h.placed hid

theorem Absent.contextRemoved {c : ContextId} (h : w.Absent d) (hw : w.Keyed)
    (hm : d.Traces (w.respond d (.contextRemoved c)).1 m) :
    (w.respond d (.contextRemoved c)).2.Absent m := by
  intro id hid
  rw [Deployment.contains_eq_false, hm.placed, respond_contextRemoved, List.foldl_append]
  exact hw.absent_retarget h.placed hid

theorem Absent.moduleStopped {module : Module} (h : w.Absent d) (hw : w.Keyed)
    (hm : d.Traces (w.respond d (.moduleStopped module)).1 m) :
    (w.respond d (.moduleStopped module)).2.Absent m := by
  rw [respond_moduleStopped] at hm ⊢
  intro id hid
  rw [Deployment.contains_eq_false, hm.placed, List.foldl_append, List.foldl_append,
    Change.foldl_onElement_of_ne fun c hc => ?_]
  · refine hw.left.absent_retarget (fun hleft => ?_) hid
    rw [h.placed (mem_pending_left hleft)]
    refine foldl_eq_self fun c hc => ?_
    obtain ⟨_, _, hremoval⟩ := List.mem_filterMap.1 hc
    split at hremoval <;> cases hremoval
    simp [Change.onElement]
  · obtain ⟨_, _, rfl⟩ := List.mem_map.1 hc
    simp [Change.element?]

theorem Absent.registered {e : Element} {selector : Selector} (h : w.Absent d)
    (hplace : ¬ Mislays d (.registered e selector))
    (hm : d.Traces (w.respond d (.registered e selector)).1 m) :
    (w.respond d (.registered e selector)).2.Absent m := by
  intro id hid
  obtain ⟨t, ht, hwaits⟩ := mem_pending.1 hid
  rw [Deployment.contains_eq_false, hm.placed, respond, track, ← Deployment.contextIds]
  rw [find?_registered] at ht
  split at ht
  · rename_i he
    cases ht
    have hnone : selector.resolve d.contextIds = none := hwaits
    rw [hnone, he]
    refine Deployment.contains_eq_false.1 (Bool.eq_false_of_not_eq_true fun hdeployed => ?_)
    exact hplace ⟨hnone, hdeployed⟩
  · rename_i hne
    rw [Change.foldl_onElement_of_ne fun c hc => ?_, h.placed (mem_pending.2 ⟨t, ht, hwaits⟩)]
    obtain ⟨ts, _, rfl⟩ : ∃ ts, selector.resolve d.contextIds = some ts ∧
        Change.addElement (e.withTargets ts d.nextCopy) = c := by simpa using hc
    simpa [Change.element?] using Ne.symm hne

theorem Absent.unregistered {j : ElementId} (h : w.Absent d)
    (hm : d.Traces (w.respond d (.unregistered j)).1 m) :
    (w.respond d (.unregistered j)).2.Absent m := by
  intro id hid
  obtain ⟨t, ht, hwaits⟩ := mem_pending.1 hid
  rw [find?_unregistered] at ht
  split at ht
  · cases ht
  · rename_i hne
    rw [Deployment.contains_eq_false, hm.placed, respond, untrack, Change.foldl_onElement_of_ne,
      h.placed (mem_pending.2 ⟨t, ht, hwaits⟩)]
    intro c hc
    split at hc
    · cases hc
    · obtain rfl := List.mem_singleton.1 hc
      simpa [Change.element?] using hne

theorem Keyed.respond (hw : w.Keyed) : (w.respond d event).2.Keyed := by
  cases event with
  | contextRegistered c => exact hw.retarget _ d.nextCopy
  | contextRemoved c => exact hw.retarget _ d.nextCopy
  | moduleStopped module => exact hw.left.retarget _ d.nextCopy
  | rankChanged c rank => exact hw
  | registered e selector =>
    intro id t ht
    rw [find?_registered] at ht
    split at ht
    · rename_i he
      cases ht
      exact he.symm
    · exact hw id t ht
  | unregistered j =>
    intro id t ht
    rw [find?_unregistered] at ht
    split at ht
    · cases ht
    · exact hw id t ht

theorem Absent.respond (h : w.Absent d) (hw : w.Keyed) (hplace : ¬ Mislays d event)
    (hm : d.Traces (w.respond d event).1 m) : (w.respond d event).2.Absent m := by
  cases event with
  | contextRegistered c => exact h.contextRegistered hw hm
  | registered e selector => exact h.registered hplace hm
  | unregistered id => exact h.unregistered hm
  | rankChanged c rank =>
    intro id hid
    rw [Deployment.contains_eq_false, hm.placed]
    exact h.placed hid
  | contextRemoved c => exact h.contextRemoved hw hm
  | moduleStopped module => exact h.moduleStopped hw hm

end Respond

section Handle

theorem Keyed.handle (hw : w.Keyed) : (w.handle s event).2.1.Keyed := by
  obtain ⟨hsame, _⟩ | ⟨hnext, _⟩ := w.handle_cases s event
  · rw [hsame]
    exact hw
  · rw [hnext]
    exact hw.respond

theorem Absent.handle (h : w.Absent s.deployment) (hw : w.Keyed)
    (hplace : ¬ Mislays s.deployment event) :
    (w.handle s event).2.1.Absent (w.handle s event).2.2.deployment := by
  obtain ⟨hsame, hdeployment, _⟩ | ⟨hnext, _, hm, _⟩ := w.handle_cases s event
  · rw [hsame, hdeployment]
    exact h
  · exact hnext ▸ h.respond hw hplace hm

theorem not_absent_of_mislays (h : Mislays s.deployment event) :
    ¬ (w.handle s event).2.1.Absent (w.handle s event).2.2.deployment := by
  cases event with
  | registered e selector =>
    obtain ⟨hnone, hdeployed⟩ := h
    have hhandle : w.handle s (.registered e selector) =
        (.ok none, ⟨w.tracked.insert e.id ⟨e, selector, none⟩⟩, s) := by
      rw [Deployment.contextIds] at hnone
      simp [Whiteboard.handle, Whiteboard.respond, track, hnone]
    intro habsent
    rw [hhandle] at habsent
    have hwaits : e.id ∈ pending ⟨w.tracked.insert e.id ⟨e, selector, none⟩⟩ :=
      mem_pending.2 ⟨⟨e, selector, none⟩, by simp [OrdMap.find?_insert_eq], rfl⟩
    exact absurd hdeployed (by simp [habsent e.id hwaits])
  | _ => exact h.elim

theorem contains_unregistered_iff (h : (w.handle s (.unregistered id)).1.toBool) :
    (w.handle s (.unregistered id)).2.2.deployment.elements.contains id ↔
      id ∈ w.pending ∧ s.deployment.elements.contains id := by
  obtain ⟨_, _, hfails⟩ | ⟨_, _, hm, _⟩ := w.handle_cases s (.unregistered id)
  · simp [hfails] at h
  rw [Deployment.contains_iff, Deployment.contains_iff, hm.placed, changes_unregistered]
  by_cases hid : id ∈ w.pending <;> simp [hid, Change.onElement]

end Handle

section Run

/-- What happens to a whiteboard and its server: events, and meanwhile requests are served, elements
built and classes registered. -/
inductive Step where
  | event (event : Event)
  | meanwhile (pool : Pool) (counters : Counters) (nextService : Nat)

def step (x : Whiteboard × Server) : Step → Whiteboard × Server
  | .event event => (x.1.handle x.2 event).2
  | .meanwhile pool counters nextService => (x.1, { x.2 with pool, counters, nextService })

def run (s : Server) (steps : List Step) : Whiteboard × Server := steps.foldl step ({}, s)

variable {steps : List Step}

theorem run_concat (s : Server) (steps : List Step) (a : Step) :
    run s (steps ++ [a]) = step (run s steps) a := List.foldl_concat ..

/-- Of a run that mislays no element, no stage has an element that waits and is deployed. -/
theorem absent_run
    (h : ∀ as event, as ++ [.event event] <+: steps → ¬ Mislays (run s as).2.deployment event) :
    ∀ as, as <+: steps → (run s as).1.Keyed ∧ (run s as).1.Absent (run s as).2.deployment := by
  refine foldl_prefix_induction (f := step) (P := fun x => x.1.Keyed ∧ x.1.Absent x.2.deployment)
    ⟨fun _ _ h => (by cases h), fun _ h => (by cases h)⟩ fun as a has ⟨hkeyed, habsent⟩ => ?_
  cases a with
  | event event => exact ⟨hkeyed.handle, habsent.handle hkeyed (h as event has)⟩
  | meanwhile => exact ⟨hkeyed, habsent⟩

/-- In a run, no element that waits is ever deployed exactly if no event mislays one. To end a
registration takes the element from the server, unless it waits and is deployed. -/
theorem pending_absent_iff (s : Server) (steps : List Step) :
    ((∀ as, as <+: steps → ∀ id ∈ (run s as).1.pending,
        (run s as).2.deployment.elements.contains id = false) ↔
      ∀ as event, as ++ [.event event] <+: steps → ¬ Mislays (run s as).2.deployment event) ∧
    ∀ as, as <+: steps → ∀ id,
      let (w, s) := run s as
      (w.handle s (.unregistered id)).1.toBool →
        ((w.handle s (.unregistered id)).2.2.deployment.elements.contains id ↔
          id ∈ w.pending ∧ s.deployment.elements.contains id) := by
  refine ⟨⟨fun h as event has hmislays => ?_, fun h as has => (absent_run h as has).2⟩,
    fun as _ id hok => contains_unregistered_iff hok⟩
  have hafter := h _ has
  rw [run_concat] at hafter
  exact not_absent_of_mislays hmislays hafter

/-- A servlet for the default context that is registered again for a context to come waits, although it
is enabled, and to end its registration leaves it so. -/
theorem pending_deployed_again :
    let s := (Server.new {} .idle {}).start.2
    let e := Element.catchAll 1
    let (w, s) := run s [.event (.registered e .default), .event (.registered e (.named ["main"]))]
    s.started ∧ w.pending = [1] ∧ s.deployment.isEnabled 1 ∧
      (w.handle s (.unregistered 1)).1.toOption = some none ∧
      (w.handle s (.unregistered 1)).2.1.tracked.find? 1 = none ∧
      (w.handle s (.unregistered 1)).2.2.deployment.isEnabled 1 := by
  decide +kernel

end Run

end Whiteboard

end ServletContainer
