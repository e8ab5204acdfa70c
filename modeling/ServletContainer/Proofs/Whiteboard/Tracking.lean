import ServletContainer.Proofs.Server.Mirror
import ServletContainer.Proofs.Server.Started
import ServletContainer.Whiteboard

/-! What a whiteboard tracks and what its server holds. An event resolves the selectors against the
contexts that will exist once its batch is committed, so that the two agree after every event, also one
whose batch is rejected (`Whiteboard.reached_tracks`). -/
namespace ServletContainer

def Deployment.contextIds (d : Deployment) : OrdSet ContextId := OrdSet.ofList d.contexts.logical.keys

theorem Deployment.mem_contextIds {d : Deployment} {id : ContextId} :
    id ∈ d.contextIds.elems ↔ (d.contexts.find? id).isSome := by
  rw [contextIds, OrdSet.mem_ofList, OrdMap.mem_keys_iff, ← Option.isSome_iff_exists]
  rfl

namespace Tracked

def placed (t : Tracked) : Option Element := t.targets.map fun ts => t.element.withTargets ts 0

def resolved (t : Tracked) (contexts : OrdSet ContextId) : Tracked :=
  { t with targets := t.selector.resolve contexts }

variable {id : ElementId} {t : Tracked} {targets : Option (List ContextId)} {copy : Nat} {c : Change}

theorem about_change (hid : t.element.id = id) (h : t.change id targets copy = some c) :
    c.element? = some id ∧ c.context? = none := by
  unfold change at h
  split at h
  · cases h
  · split at h <;> cases h
    · exact ⟨congrArg some hid, rfl⟩
    · exact ⟨rfl, rfl⟩
    · exact ⟨rfl, rfl⟩

theorem elim_change (hid : t.element.id = id) :
    (t.change id targets copy).elim t.placed (Change.onElement id t.placed) =
      { t with targets }.placed := by
  unfold change
  split
  · rename_i hsame
    rw [hsame]
    rfl
  · cases ht : t.targets <;> cases targets <;> simp [placed, Change.onElement, hid, ht]

end Tracked

namespace Whiteboard

variable {w next : Whiteboard} {d m : Deployment} {s s₀ : Server} {changes : List Change}
  {contexts : OrdSet ContextId} {copy : Nat} {event : Event}

def Keyed (w : Whiteboard) : Prop := ∀ id t, w.tracked.find? id = some t → t.element.id = id

/-- The element that the server should hold, its copy number aside. -/
def placed (w : Whiteboard) (id : ElementId) : Option Element :=
  (w.tracked.find? id).bind Tracked.placed

/-- All targets are what the selectors mean among some contexts. -/
def Resolved (w : Whiteboard) (contexts : OrdSet ContextId) : Prop :=
  ∀ id t, w.tracked.find? id = some t → t.targets = t.selector.resolve contexts

/-- The server holds the tracked elements that have targets, and these are up to date. -/
structure Tracks (w : Whiteboard) (d : Deployment) : Prop where
  keyed : w.Keyed
  deployed : ∀ id, d.placed id = w.placed id
  resolved : w.Resolved d.contextIds

section Retarget

theorem find?_retarget (id : ElementId) : (w.retarget contexts copy).2.tracked.find? id =
    (w.tracked.find? id).map (·.resolved contexts) :=
  OrdMap.find?_mapWithKey ..

theorem Keyed.retarget (hw : w.Keyed) (contexts : OrdSet ContextId) (copy : Nat) :
    (w.retarget contexts copy).2.Keyed := by
  intro id t ht
  rw [find?_retarget] at ht
  obtain ⟨u, hu, rfl⟩ := Option.map_eq_some_iff.1 ht
  exact hw id u hu

theorem resolved_retarget : (w.retarget contexts copy).2.Resolved contexts := by
  intro id t ht
  rw [find?_retarget] at ht
  obtain ⟨u, _, rfl⟩ := Option.map_eq_some_iff.1 ht
  rfl

theorem Keyed.about_retarget (hw : w.Keyed) {c : Change} (hc : c ∈ (w.retarget contexts copy).1) :
    c.context? = none := by
  obtain ⟨⟨id, t⟩, he, h⟩ := List.mem_filterMap.1 hc
  exact (Tracked.about_change (hw id t (OrdMap.mem_entries_iff.1 he)) h).2

theorem Keyed.context_retarget (hw : w.Keyed) (id : ContextId) (o : Option LogicalContext) :
    (w.retarget contexts copy).1.foldl (Change.onContext id) o = o :=
  Change.foldl_onContext_of_ne (fun c hc => by simp [hw.about_retarget hc]) o

theorem Keyed.foldl_retarget (hw : w.Keyed) (id : ElementId) (o : Option Element) :
    (w.retarget contexts copy).1.foldl (Change.onElement id) o =
      ((w.tracked.find? id).bind fun t => t.change id (t.selector.resolve contexts) copy).elim o
        (Change.onElement id o) :=
  OrdMap.foldl_filterMap_entries (m := w.tracked) (k := id)
    (f := fun id t => t.change id (t.selector.resolve contexts) copy) (g := Change.onElement id)
    (fun l t c ht hc hne => Change.onElement_of_ne (by
      rw [(Tracked.about_change (hw l t ht) hc).1]
      simpa using hne)) o

theorem Keyed.placed_retarget (hw : w.Keyed) (id : ElementId) :
    (w.retarget contexts copy).1.foldl (Change.onElement id) (w.placed id) =
      (w.retarget contexts copy).2.placed id := by
  rw [hw.foldl_retarget, placed, placed, find?_retarget]
  cases ht : w.tracked.find? id with
  | none => rfl
  | some t => exact Tracked.elim_change (hw id t ht)

theorem Keyed.tracks_retarget (hw : w.Keyed) (copy : Nat) (hids : m.contextIds = contexts)
    (hplaced : ∀ id, m.placed id =
      (w.retarget contexts copy).1.foldl (Change.onElement id) (w.placed id)) :
    (w.retarget contexts copy).2.Tracks m :=
  ⟨hw.retarget contexts copy, fun id => (hplaced id).trans (hw.placed_retarget id), hids ▸ resolved_retarget⟩

end Retarget

section Respond

theorem contextIds_eq (h : ∀ id, (m.contexts.find? id).isSome ↔ id ∈ contexts.elems) :
    m.contextIds = contexts :=
  OrdSet.ext_mem fun id => Deployment.mem_contextIds.trans (h id)

theorem respond_contextRegistered (c : LogicalContext) : w.respond d (.contextRegistered c) =
    (.addContext c :: (w.retarget (d.contextIds.insert c.id) d.nextCopy).1,
      (w.retarget (d.contextIds.insert c.id) d.nextCopy).2) := rfl

theorem respond_contextRemoved (c : ContextId) : w.respond d (.contextRemoved c) =
    ((w.retarget (d.contextIds.erase c) d.nextCopy).1 ++ [.removeContext c],
      (w.retarget (d.contextIds.erase c) d.nextCopy).2) := rfl

theorem Tracks.contextRegistered {c : LogicalContext} (h : w.Tracks d)
    (hm : d.Traces (w.respond d (.contextRegistered c)).1 m) :
    (w.respond d (.contextRegistered c)).2.Tracks m := by
  refine h.keyed.tracks_retarget d.nextCopy (contextIds_eq fun id => ?_) fun id => ?_
  · rw [hm.context, respond, List.foldl_cons, h.keyed.context_retarget, OrdSet.mem_insert,
      ← Deployment.contextIds, Deployment.mem_contextIds]
    simp only [Change.onContext]
    split <;> simp_all
  · rw [hm.placed, h.deployed, respond, List.foldl_cons]
    rfl

theorem Tracks.contextRemoved {c : ContextId} (h : w.Tracks d)
    (hm : d.Traces (w.respond d (.contextRemoved c)).1 m) :
    (w.respond d (.contextRemoved c)).2.Tracks m := by
  refine h.keyed.tracks_retarget d.nextCopy (contextIds_eq fun id => ?_) fun id => ?_
  · rw [hm.context, respond, List.foldl_append, h.keyed.context_retarget, OrdSet.mem_erase,
      ← Deployment.contextIds, Deployment.mem_contextIds]
    simp only [List.foldl_cons, List.foldl_nil, Change.onContext]
    split <;> simp_all
  · rw [hm.placed, h.deployed, respond, List.foldl_append]
    rfl

theorem Tracks.rankChanged {c : ContextId} {rank : Int} (h : w.Tracks d)
    (hm : d.Traces (w.respond d (.rankChanged c rank)).1 m) :
    (w.respond d (.rankChanged c rank)).2.Tracks m := by
  have hids : m.contextIds = d.contextIds := contextIds_eq fun id => by
    rw [hm.context, Deployment.mem_contextIds]
    simp only [respond, List.foldl_cons, List.foldl_nil, Change.onContext]
    split <;> simp
  exact ⟨h.keyed, fun id => (hm.placed id).trans (h.deployed id), hids ▸ h.resolved⟩

theorem find?_registered (e : Element) (selector : Selector) (id : ElementId) :
    (w.respond d (.registered e selector)).2.tracked.find? id =
      if id = e.id then some ⟨e, selector, selector.resolve d.contextIds⟩ else w.tracked.find? id :=
  OrdMap.find?_insert_eq ..

theorem find?_unregistered (j id : ElementId) : (w.respond d (.unregistered j)).2.tracked.find? id =
    if j = id then none else w.tracked.find? id :=
  OrdMap.find?_erase_eq ..

theorem mem_pending {id : ElementId} :
    id ∈ w.pending ↔ ∃ t, w.tracked.find? id = some t ∧ t.targets = none := by
  rw [pending, OrdMap.mem_keys_filter]
  simp

theorem changes_unregistered (id : ElementId) :
    (w.respond d (.unregistered id)).1 = if id ∈ w.pending then [] else [.removeElement id] := by
  have hwaits : (w.tracked.find? id).any (·.targets.isNone) ↔ id ∈ w.pending := by
    rw [mem_pending, Option.any_eq_true]
    simp
  by_cases hid : id ∈ w.pending
  · rw [if_pos hid]
    exact if_pos (hwaits.2 hid)
  · rw [if_neg hid]
    exact if_neg (mt hwaits.1 hid)

theorem placed_registered {e : Element} {selector : Selector} {id : ElementId}
    (h : selector.resolve d.contextIds = none → id = e.id → w.placed id = none) :
    (w.respond d (.registered e selector)).1.foldl (Change.onElement id) (w.placed id) =
      (w.respond d (.registered e selector)).2.placed id := by
  rw [placed.eq_def (w.respond d _).2, find?_registered, respond, track, ← Deployment.contextIds]
  split
  · rename_i hid
    cases hresolve : selector.resolve d.contextIds with
    | none => simp [Tracked.placed, h hresolve hid]
    | some ts => simp [Tracked.placed, Change.onElement, hid]
  · rename_i hid
    cases selector.resolve d.contextIds <;> simp [placed, Change.onElement, hid]

theorem placed_unregistered (j id : ElementId) :
    (w.respond d (.unregistered j)).1.foldl (Change.onElement id) (w.placed id) =
      (w.respond d (.unregistered j)).2.placed id := by
  rw [placed, placed, find?_unregistered, respond, untrack]
  by_cases hid : j = id
  · subst hid
    cases ht : w.tracked.find? j with
    | none => simp [Change.onElement]
    | some t => cases htargets : t.targets <;> simp [Tracked.placed, Change.onElement, htargets]
  · rw [if_neg hid]
    split <;> simp [Change.onElement, hid]

theorem Tracks.registered {e : Element} {selector : Selector} (h : w.Tracks d)
    (hnew : w.tracked.contains e.id = false)
    (hm : d.Traces (w.respond d (.registered e selector)).1 m) :
    (w.respond d (.registered e selector)).2.Tracks m := by
  have hnone : w.tracked.find? e.id = none := by simpa [OrdMap.contains] using hnew
  have hids : m.contextIds = d.contextIds := contextIds_eq fun id => by
    rw [hm.context, Deployment.mem_contextIds, respond, track]
    cases selector.resolve (OrdSet.ofList d.contexts.logical.keys) <;> rfl
  refine ⟨fun id t ht => ?_, fun id => ?_, fun id t ht => ?_⟩
  · rw [find?_registered] at ht
    split at ht
    · rename_i hid
      cases ht
      exact hid.symm
    · exact h.keyed id t ht
  · rw [hm.placed, h.deployed, placed_registered fun _ hid => ?_]
    rw [hid, placed, hnone, Option.bind_none]
  · rw [find?_registered] at ht
    rw [hids]
    split at ht
    · cases ht
      rfl
    · exact h.resolved id t ht

theorem Tracks.unregistered {j : ElementId} (h : w.Tracks d)
    (hm : d.Traces (w.respond d (.unregistered j)).1 m) :
    (w.respond d (.unregistered j)).2.Tracks m := by
  have hids : m.contextIds = d.contextIds := contextIds_eq fun id => by
    rw [hm.context, Deployment.mem_contextIds, respond, untrack]
    split <;> rfl
  refine ⟨fun id t ht => ?_, fun id => ?_, fun id t ht => ?_⟩
  · rw [find?_unregistered] at ht
    split at ht
    · cases ht
    · exact h.keyed id t ht
  · rw [hm.placed, h.deployed, placed_unregistered]
  · rw [find?_unregistered] at ht
    rw [hids]
    split at ht
    · cases ht
    · exact h.resolved id t ht

section Withdraw

variable {module : Module}

def left (w : Whiteboard) (module : Module) : Whiteboard :=
  ⟨w.tracked.filter fun _ t => !(t.element.owner == some module)⟩

def removals (w : Whiteboard) (module : Module) : List Change :=
  w.tracked.entries.filterMap fun e =>
    if e.2.element.owner == some module && e.2.targets.isSome then some (.removeElement e.1) else none

def owned (d : Deployment) (module : Module) : List ContextId :=
  (d.contexts.logical.filter fun _ c => c.owner == some module).keys

theorem respond_moduleStopped : w.respond d (.moduleStopped module) =
    (w.removals module ++ ((w.left module).retarget
        (d.contextIds.filter fun c => !(owned d module).contains c) d.nextCopy).1 ++
      (owned d module).map .removeContext,
    ((w.left module).retarget
        (d.contextIds.filter fun c => !(owned d module).contains c) d.nextCopy).2) := rfl

theorem find?_left (id : ElementId) : (w.left module).tracked.find? id =
    (w.tracked.find? id).filter fun t => !(t.element.owner == some module) :=
  OrdMap.find?_filter ..

theorem Keyed.left (hw : w.Keyed) : (w.left module).Keyed := by
  intro id t ht
  rw [find?_left] at ht
  exact hw id t (Option.filter_eq_some_iff.1 ht).1

theorem placed_removals (id : ElementId) :
    (w.removals module).foldl (Change.onElement id) (w.placed id) = (w.left module).placed id := by
  have hfold := OrdMap.foldl_filterMap_entries (m := w.tracked) (k := id)
    (f := fun id t => if t.element.owner == some module && t.targets.isSome then
      some (Change.removeElement id) else none) (g := Change.onElement id)
    (fun l t c _ hc hne => by
      split at hc <;> cases hc
      simp [Change.onElement, hne]) (w.placed id)
  refine hfold.trans ?_
  rw [placed, placed, find?_left]
  cases w.tracked.find? id with
  | none => rfl
  | some t =>
    -- an element of the module that waits is not in the server anyway
    cases ht : t.targets <;> by_cases hown : t.element.owner = some module <;>
      simp [hown, Option.filter, Tracked.placed, Change.onElement, ht]

theorem context_removals (id : ContextId) (o : Option LogicalContext) :
    (w.removals module).foldl (Change.onContext id) o = o := by
  refine Change.foldl_onContext_of_ne (fun c hc => ?_) o
  obtain ⟨_, _, h⟩ := List.mem_filterMap.1 hc
  split at h <;> cases h
  simp [Change.context?]

theorem Keyed.context_moduleStopped (hw : w.Keyed) (id : ContextId) (o : Option LogicalContext) :
    (w.respond d (.moduleStopped module)).1.foldl (Change.onContext id) o =
      if id ∈ owned d module then none else o := by
  rw [respond_moduleStopped, List.foldl_append, List.foldl_append, context_removals,
    hw.left.context_retarget, Change.foldl_onContext_removeContext]

theorem Keyed.placed_moduleStopped (hw : w.Keyed) (id : ElementId) :
    (w.respond d (.moduleStopped module)).1.foldl (Change.onElement id) (w.placed id) =
      (w.respond d (.moduleStopped module)).2.placed id := by
  rw [respond_moduleStopped, List.foldl_append, List.foldl_append, placed_removals,
    Change.foldl_onElement_of_ne fun c hc => ?_, hw.left.placed_retarget]
  obtain ⟨_, _, rfl⟩ := List.mem_map.1 hc
  simp [Change.element?]

theorem Tracks.moduleStopped (h : w.Tracks d)
    (hm : d.Traces (w.respond d (.moduleStopped module)).1 m) :
    (w.respond d (.moduleStopped module)).2.Tracks m := by
  have hids : m.contextIds = d.contextIds.filter fun c => !(owned d module).contains c :=
    contextIds_eq fun id => by
      rw [hm.context, h.keyed.context_moduleStopped]
      simp only [OrdSet.filter, List.mem_filter, Deployment.mem_contextIds]
      split <;> simp_all
  have hresolved : (w.respond d (.moduleStopped module)).2.Resolved
      (d.contextIds.filter fun c => !(owned d module).contains c) :=
    @resolved_retarget (w.left module) _ d.nextCopy
  refine ⟨h.keyed.left.retarget _ d.nextCopy, fun id => ?_, hids ▸ hresolved⟩
  rw [hm.placed, h.deployed, h.keyed.placed_moduleStopped]

end Withdraw

end Respond

section Reached

/-- No element is registered under the number of one that is still tracked. -/
def Fresh (w : Whiteboard) : Event → Prop
  | .registered e _ => w.tracked.contains e.id = false
  | _ => True

instance (w : Whiteboard) (event : Event) : Decidable (w.Fresh event) :=
  match event with
  | .registered e _ => inferInstanceAs (Decidable (w.tracked.contains e.id = false))
  | .contextRegistered _ | .unregistered _ | .rankChanged .. | .contextRemoved _ | .moduleStopped _ =>
    inferInstanceAs (Decidable True)

/-- What is tracked after an event is what the server holds once the batch is committed. -/
theorem Tracks.respond (h : w.Tracks d) (hnew : w.Fresh event)
    (hm : d.Traces (w.respond d event).1 m) : (w.respond d event).2.Tracks m := by
  cases event with
  | contextRegistered c => exact h.contextRegistered hm
  | registered e selector => exact h.registered hnew hm
  | unregistered id => exact h.unregistered hm
  | rankChanged c rank => exact h.rankChanged hm
  | contextRemoved c => exact h.contextRemoved hm
  | moduleStopped module => exact h.moduleStopped hm

/-- An event whose batch is not committed leaves both sides as they are; any other leads to what it asks
for. -/
theorem handle_cases (w : Whiteboard) (s : Server) (event : Event) :
    ((w.handle s event).2.1 = w ∧ (w.handle s event).2.2.deployment = s.deployment ∧
      (w.handle s event).1.toBool = false) ∨
    ((w.handle s event).2.1 = (w.respond s.deployment event).2 ∧
      (∃ m, s.deployment.Becomes (w.respond s.deployment event).1 m) ∧
      s.deployment.Traces (w.respond s.deployment event).1 (w.handle s event).2.2.deployment ∧
      (w.handle s event).1.toBool) := by
  unfold handle
  split
  rename_i changes next heq
  rw [heq]
  split
  · rename_i hempty
    rw [List.isEmpty_iff] at hempty
    subst hempty
    exact .inr ⟨rfl, ⟨_, Deployment.becomes_nil.2 rfl⟩, s.deployment.traces_nil, rfl⟩
  · split <;> rename_i hsubmit
    · have hcommits := Server.submit_ok hsubmit
      exact .inr ⟨rfl, hcommits.imp fun _ h => h.1, hcommits.traces, rfl⟩
    · exact .inl ⟨rfl, Server.submit_error hsubmit, rfl⟩

theorem server_handle (w : Whiteboard) (s : Server) (event : Event) :
    (w.handle s event).2.2 = s ∨ ∃ b, (w.handle s event).2.2 = (s.submit b).2 := by
  unfold handle
  split
  split
  · exact .inl rfl
  · split <;> rename_i hsubmit <;> exact .inr ⟨_, by rw [hsubmit]⟩

theorem Tracks.handle (h : w.Tracks s.deployment) (hnew : w.Fresh event) :
    (w.handle s event).2.1.Tracks (w.handle s event).2.2.deployment := by
  obtain ⟨hsame, hdeployment, _⟩ | ⟨hnext, _, hm, _⟩ := w.handle_cases s event
  · rw [hsame, hdeployment]
    exact h
  · exact hnext ▸ h.respond hnew hm

/-- How far a whiteboard and a server get when only the whiteboard writes to the server. Meanwhile
requests are served, elements built and classes registered. -/
inductive Reached (s₀ : Server) : Whiteboard → Server → Prop
  | start : Reached s₀ {} s₀
  | event {w : Whiteboard} {s : Server} (event : Event) : Reached s₀ w s → w.Fresh event →
      Reached s₀ (w.handle s event).2.1 (w.handle s event).2.2
  | meanwhile {w : Whiteboard} {s : Server} (pool : Pool) (counters : Counters) (nextService : Nat) :
      Reached s₀ w s → Reached s₀ w { s with pool, counters, nextService }

theorem Reached.tracks (h : Reached s₀ w s) (hs₀ : ∀ id, s₀.deployment.placed id = none) :
    w.Tracks s.deployment := by
  induction h with
  | start => exact ⟨fun _ _ h => (by cases h), hs₀, fun _ _ h => (by cases h)⟩
  | event event _ hnew ih => exact ih.handle hnew
  | meanwhile _ _ _ _ ih => exact ih

/-- What is tracked agrees with what is deployed. -/
structure Agrees (w : Whiteboard) (d : Deployment) : Prop where
  /-- The targets are what the selector means among the contexts that exist. -/
  targets : ∀ id t, w.tracked.find? id = some t → t.targets = t.selector.resolve d.contextIds
  /-- An element is deployed exactly while it has targets. -/
  deployed : ∀ id t, w.tracked.find? id = some t → (d.elements.contains id ↔ t.targets.isSome)
  /-- It is deployed with these targets, each once. -/
  bound : ∀ id t ts x, w.tracked.find? id = some t → t.targets = some ts →
    d.elements.find? id = some x → x.element.original = t.element.withTargets ts 0 ∧
      x.element.targets.Nodup ∧ ∀ c, c ∈ x.element.targets ↔ c ∈ ts
  /-- Nothing else is deployed. -/
  tracked : ∀ id, d.elements.contains id → w.tracked.contains id
  /-- Those without targets wait. -/
  waiting : w.pending.Nodup ∧
    ∀ id, id ∈ w.pending ↔ ∃ t, w.tracked.find? id = some t ∧ t.targets = none

theorem Tracks.agrees (h : w.Tracks s.deployment) : w.Agrees s.deployment := by
  have hcontains (id : ElementId) :
      s.deployment.elements.contains id ↔ (w.placed id).isSome := by
    rw [← h.deployed, Deployment.placed, Option.isSome_map, OrdMap.contains]
  constructor
  case targets => exact h.resolved
  case deployed =>
    intro id t ht
    rw [hcontains, placed, ht]
    simp [Tracked.placed]
  case bound =>
    intro id t ts x ht hts hx
    have horiginal : x.element.original = t.element.withTargets ts 0 := by
      have hplaced := h.deployed id
      rw [Deployment.placed, placed, hx, ht] at hplaced
      simpa [Tracked.placed, hts] using hplaced
    have htargets : x.element.targets = Element.distinct ts := congrArg (·.targets) horiginal
    refine ⟨horiginal, htargets ▸ Element.nodup_distinct ts, fun c => ?_⟩
    rw [htargets, Element.mem_distinct]
  case tracked =>
    intro id hid
    rw [hcontains, placed] at hid
    rw [OrdMap.contains]
    cases ht : w.tracked.find? id with
    | none => simp [ht] at hid
    | some t => rfl
  case waiting => exact ⟨OrdMap.nodup_keys _, fun _ => mem_pending⟩

/-- A whiteboard that has a server to itself, with nothing deployed at first, agrees with it after every
event, be its batch committed or rejected. -/
theorem reached_agrees (hs₀ : ∀ id, s₀.deployment.elements.find? id = none) (h : Reached s₀ w s) :
    w.Agrees s.deployment :=
  (h.tracks fun id => Deployment.placed_eq_none.2 (hs₀ id)).agrees

/-- A servlet for a context to come, one for all contexts, then that context, the same context once more,
which is rejected, and a rank. -/
theorem reached_agrees_rejected :
    let s₀ := (Server.new {} (.inProcess {}) {}).start.2
    (∀ id, s₀.deployment.elements.find? id = none) ∧
      ∃ w s, Reached s₀ w s ∧ w.Agrees s.deployment ∧ w.pending = [] ∧
        (s.deployment.elements.find? 1).map (·.element.targets) = some ["main"] ∧
        (s.deployment.elements.find? 2).map (·.element.targets) = some ["default", "main"] := by
  intro s₀
  have hs₀ (id : ElementId) : s₀.deployment.elements.find? id = none := by
    have hempty : s₀.deployment.elements = ∅ := by decide +kernel
    rw [hempty]
    rfl
  have hreached : Reached s₀ _ _ :=
    .event (.rankChanged "main" 7)
      (.event (.contextRegistered ⟨"main", .root, 0, 2, none, .standard, ∅, {}⟩)
        (.event (.contextRegistered ⟨"main", .root, 0, 2, none, .standard, ∅, {}⟩)
          (.event (.registered (.catchAll 2) .all)
            (.event (.registered (.catchAll 1) (.named ["main", "main"])) .start (by decide +kernel))
            (by decide +kernel)) trivial) trivial) trivial
  exact ⟨hs₀, _, _, hreached, reached_agrees hs₀ hreached, by decide +kernel, by decide +kernel,
    by decide +kernel⟩

end Reached

end Whiteboard

end ServletContainer
