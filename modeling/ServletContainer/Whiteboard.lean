import ServletContainer.Server.Basic

/-! Registration by events. Modules publish contexts and elements; each element says which contexts
it wants, and waits while there are none of them. An event is turned into one batch against the
contexts that exist at that moment, and it counts only if the server commits the batch. -/
namespace ServletContainer

/-- The contexts that an element wants. -/
inductive Selector where
  /-- The server's default context. -/
  | default
  /-- Those of the listed contexts that exist. -/
  | named (ids : List ContextId)
  /-- Every context that exists. -/
  | all
  deriving DecidableEq

/-- The targets among the existing contexts, which come in order; `none` if there are none yet. No
targets stand for the default context. -/
def Selector.resolve (contexts : OrdSet ContextId) : Selector → Option (List ContextId)
  | .default => some []
  | .named ids =>
    let found := ids.filter contexts.contains
    if found.isEmpty then none else some found
  | .all => if contexts.isEmpty then none else some contexts.elems

inductive Event where
  | contextRegistered (c : LogicalContext)
  | registered (e : Element) (selector : Selector)
  | unregistered (id : ElementId)
  | rankChanged (context : ContextId) (rank : Int)
  | contextRemoved (context : ContextId)
  /-- Withdraws every element and context of the module. -/
  | moduleStopped (m : Module)
  deriving DecidableEq

def Event.label : Event → String
  | .contextRegistered c => "register context " ++ c.id
  | .registered e _ => "register " ++ e.label
  | .unregistered id => "unregister " ++ ElementId.label id
  | .rankChanged c rank => "context " ++ c ++ " changed: Rank(" ++ toString rank ++ ")"
  | .contextRemoved c => "context " ++ c ++ " changed: Removed"
  | .moduleStopped m => "module " ++ m.label ++ " stopped"

/-- An element, the contexts it wants, and its targets; `none` while it waits. -/
structure Tracked where
  element : Element
  selector : Selector
  targets : Option (List ContextId)
  deriving DecidableEq

/-- What leads from the present targets of an element to new ones; `copy` numbers the copy that is
registered. -/
def Tracked.change (id : ElementId) (t : Tracked) (targets : Option (List ContextId))
    (copy : Nat) : Option Change :=
  if targets = t.targets then none
  else
    match t.targets, targets with
    | none, some ts => some (.addElement (t.element.withTargets ts copy))
    | some _, some ts => some (.retarget id ts)
    | some _, none => some (.removeElement id)
    | none, none => none

structure Whiteboard where
  tracked : OrdMap ElementId Tracked := ∅
  deriving DecidableEq

namespace Whiteboard

def pending (w : Whiteboard) : List ElementId :=
  (w.tracked.filter fun _ t => t.targets.isNone).keys

def retarget (w : Whiteboard) (contexts : OrdSet ContextId) (copy : Nat) :
    List Change × Whiteboard :=
  (w.tracked.entries.filterMap fun (id, t) => t.change id (t.selector.resolve contexts) copy,
    ⟨w.tracked.mapWithKey fun _ t => { t with targets := t.selector.resolve contexts }⟩)

def track (w : Whiteboard) (e : Element) (selector : Selector) (contexts : OrdSet ContextId)
    (copy : Nat) : List Change × Whiteboard :=
  let targets := selector.resolve contexts
  ((targets.map fun ts => .addElement (e.withTargets ts copy)).toList,
    ⟨w.tracked.insert e.id ⟨e, selector, targets⟩⟩)

/-- Ends the tracking of an element; only one that waits is not in the server. -/
def untrack (w : Whiteboard) (id : ElementId) : List Change × Whiteboard :=
  let waits := (w.tracked.find? id).any (·.targets.isNone)
  (if waits then [] else [.removeElement id], ⟨w.tracked.erase id⟩)

/-- Withdraws what a module owns: its elements first, then, when the others have moved away, its
contexts. -/
def withdraw (w : Whiteboard) (m : Module) (d : Deployment) : List Change × Whiteboard :=
  let isOwn := fun (t : Tracked) => t.element.owner == some m
  let removals := w.tracked.entries.filterMap fun (id, t) =>
    if isOwn t && t.targets.isSome then some (.removeElement id) else none
  let left : Whiteboard := ⟨w.tracked.filter fun _ t => !isOwn t⟩
  let owned := (d.contexts.logical.filter fun _ c => c.owner == some m).keys
  let remaining := (OrdSet.ofList d.contexts.logical.keys).filter fun c => !owned.contains c
  let (changes, next) := left.retarget remaining d.nextCopy
  (removals ++ changes ++ owned.map .removeContext, next)

/-- The changes that an event asks for, and what is tracked once they are made. -/
def respond (w : Whiteboard) (d : Deployment) : Event → List Change × Whiteboard
  | .contextRegistered c =>
    let (changes, next) := w.retarget ((OrdSet.ofList d.contexts.logical.keys).insert c.id) d.nextCopy
    (.addContext c :: changes, next)
  | .registered e selector =>
    w.track e selector (OrdSet.ofList d.contexts.logical.keys) d.nextCopy
  | .unregistered id => w.untrack id
  | .rankChanged c rank => ([.updateRank c rank], w)
  | .contextRemoved c =>
    let (changes, next) := w.retarget ((OrdSet.ofList d.contexts.logical.keys).erase c) d.nextCopy
    (changes ++ [.removeContext c], next)
  | .moduleStopped m => w.withdraw m d

/-- Handles an event. There is no report if it changes nothing that the server sees. -/
def handle (w : Whiteboard) (s : Server) (event : Event) :
    Except BatchError (Option Report) × Whiteboard × Server :=
  let (changes, next) := w.respond s.deployment event
  if changes.isEmpty then (.ok none, next, s)
  else
    match s.submit ⟨event.label, changes⟩ with
    | (.ok report, s) => (.ok (some report), next, s)
    | (.error e, s) => (.error e, w, s)

end Whiteboard

end ServletContainer
