import ServletContainer.Arbitration.Resolver
import ServletContainer.Context.Model

/-! What is deployed: contexts, elements, and where each element is enabled. Elements without
targets belong to the default context. A target whose context was removed is remembered with its
last path for as long as some element names it. -/
namespace ServletContainer

/-- A deployed element and the mounts in which it is enabled. -/
structure Deployed where
  element : Element
  enabledIn : OrdSet ContextPath := ∅
  deriving DecidableEq

structure Deployment where
  policy : Policy
  defaultContext : ContextId
  contexts : Contexts := {}
  elements : OrdMap ElementId Deployed := ∅
  /-- The last path of each removed context that some element still names. -/
  withdrawn : OrdMap ContextId ContextPath := ∅
  /-- The number of the next copy of an element; above those of all copies deployed. -/
  nextCopy : Nat := 1
  deriving DecidableEq

namespace Deployment

/-- The path that a target stands for: that of its context, or where it last was if another context
serves that path now. -/
def targetPath (d : Deployment) (t : ContextId) : Option ContextPath :=
  match d.contexts.find? t with
  | some c => some c.path
  | none => (d.withdrawn.find? t).filter fun p => (d.contexts.highest p).isSome

def physicalOf (d : Deployment) (e : Element) : List ContextPath :=
  if e.targets.isEmpty then
    match d.contexts.find? d.defaultContext with
    | some c => [c.path]
    | none => []
  else (OrdSet.ofList (e.targets.filterMap d.targetPath)).elems

/-- Of some contexts, the one of highest priority, the earliest listed of equals. -/
def foremost : List LogicalContext → Option LogicalContext
  | [] => none
  | c :: cs =>
    match foremost cs with
    | some best => if c.precedes best then some c else some best
    | none => some c

/-- The context under which an element is served in a mount. -/
def contextFor (d : Deployment) (e : Element) (path : ContextPath) : Option LogicalContext :=
  if e.targets.isEmpty then
    match d.contexts.find? d.defaultContext with
    | some c => if c.path = path then some c else d.contexts.highest path
    | none => d.contexts.highest path
  else
    match foremost ((e.targets.filterMap d.contexts.find?).filter (·.path = path)) with
    | some c => some c
    | none =>
      if e.targets.any fun t => d.withdrawn.find? t = some path then d.contexts.highest path
      else none

def elementList (d : Deployment) : List Element := d.elements.values.map (·.element)

def enabledAt (d : Deployment) (path : ContextPath) : List Element :=
  Element.inOrder ((d.elements.values.filter (·.enabledIn.contains path)).map (·.element))

def enabledFilters (d : Deployment) (path : ContextPath) : List Element :=
  (d.enabledAt path).filter (·.kind = .filter)

def enabledIn (d : Deployment) (id : ElementId) : OrdSet ContextPath :=
  match d.elements.find? id with
  | some s => s.enabledIn
  | none => ∅

def isEnabled (d : Deployment) (id : ElementId) : Bool := !(d.enabledIn id).isEmpty

def shadowedIn (d : Deployment) (s : Deployed) : List ContextPath :=
  (d.physicalOf s.element).filter fun p => !s.enabledIn.contains p

end Deployment

end ServletContainer
