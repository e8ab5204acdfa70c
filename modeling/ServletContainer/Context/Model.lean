import ServletContainer.Context.Basic

/-! Which contexts exist: mount points, and the logical contexts bound to each in order of
priority. A mount point lives as long as it is pinned or has a context bound to it. -/
namespace ServletContainer

/-- A mount point: `bound` lists its contexts, highest priority first. -/
structure Physical where
  pinned : Bool := false
  bound : List ContextId := []
  deriving DecidableEq

structure Contexts where
  physical : OrdMap ContextPath Physical := ∅
  logical : OrdMap ContextId LogicalContext := ∅
  deriving DecidableEq

namespace Contexts

def ensure (cs : Contexts) (path : ContextPath) : Contexts :=
  if cs.physical.contains path then cs
  else { cs with physical := cs.physical.insert path {} }

def pin (cs : Contexts) (path : ContextPath) : Contexts :=
  let cs := cs.ensure path
  { cs with physical := cs.physical.modify path fun p => { p with pinned := true } }

/-- Removes a mount point to which nothing is bound. -/
def removePhysical (cs : Contexts) (path : ContextPath) : Except ValidationError Contexts :=
  match cs.physical.find? path with
  | none => .error (.unknownPhysicalContext path.text)
  | some p =>
    match p.bound with
    | c :: _ => .error (.physicalContextInUse path.text c)
    | [] => .ok { cs with physical := cs.physical.erase path }

def byPriority (logical : OrdMap ContextId LogicalContext) (ids : List ContextId) :
    List ContextId :=
  sortBy (fun a b =>
    match logical.find? a, logical.find? b with
    | some x, some y => x.precedes y
    | some _, none => false
    | none, _ => true) ids

def sortBound (cs : Contexts) (path : ContextPath) : Contexts :=
  { cs with
    physical := cs.physical.modify path fun p => { p with bound := byPriority cs.logical p.bound } }

def bind (cs : Contexts) (c : LogicalContext) : Except ValidationError Contexts :=
  if cs.logical.contains c.id then .error (.duplicateContext c.id)
  else
    let cs := cs.ensure c.path
    let physical := cs.physical.modify c.path fun p => { p with bound := p.bound ++ [c.id] }
    .ok (sortBound ⟨physical, cs.logical.insert c.id c⟩ c.path)

/-- Removes a context, and its mount point if nothing keeps that. -/
def unbind (cs : Contexts) (id : ContextId) : Except ValidationError (LogicalContext × Contexts) :=
  match cs.logical.find? id with
  | none => .error (.unknownContext id)
  | some c =>
    let physical := cs.physical.modify c.path fun p => { p with bound := p.bound.filter (· ≠ id) }
    let gone := match physical.find? c.path with
      | some p => p.bound.isEmpty && !p.pinned
      | none => false
    .ok (c, ⟨if gone then physical.erase c.path else physical, cs.logical.erase id⟩)

def updateRank (cs : Contexts) (id : ContextId) (rank : Int) : Except ValidationError Contexts :=
  match cs.logical.find? id with
  | none => .error (.unknownContext id)
  | some c =>
    let logical := cs.logical.modify id fun c => { c with rank := rank }
    .ok (sortBound ⟨cs.physical, logical⟩ c.path)

def highest (cs : Contexts) (path : ContextPath) : Option LogicalContext := do
  let p ← cs.physical.find? path
  let id ← p.bound.head?
  cs.logical.find? id

def find? (cs : Contexts) (id : ContextId) : Option LogicalContext := cs.logical.find? id

def boundAt (cs : Contexts) (path : ContextPath) : List LogicalContext :=
  match cs.physical.find? path with
  | some p => p.bound.filterMap cs.logical.find?
  | none => []

def paths (cs : Contexts) : List ContextPath := cs.physical.keys

end Contexts

end ServletContainer
