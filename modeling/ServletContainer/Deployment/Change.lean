import ServletContainer.Deployment.Basic

/-! Changes to a deployment. A change is checked against the state that it is made in; a batch is a
list of changes made one after the other. -/
namespace ServletContainer

inductive Change where
  /-- Makes a mount point that stays until it is removed. -/
  | addPhysical (path : ContextPath)
  /-- Fails while a context is bound there. -/
  | removePhysical (path : ContextPath)
  | addContext (c : LogicalContext)
  | removeContext (id : ContextId)
  | updateRank (id : ContextId) (rank : Int)
  | addElement (e : Element)
  | removeElement (id : ElementId)
  | retarget (id : ElementId) (targets : List ContextId)
  /-- Sends the filters of a mount to the engine again. -/
  | refreshFilters (path : ContextPath)
  deriving DecidableEq

def Change.label : Change → String
  | .addPhysical p => "add physical context " ++ p.text
  | .removePhysical p => "remove physical context " ++ p.text
  | .addContext c => "add logical context " ++ c.id ++ " at " ++ c.path.text
  | .removeContext id => "remove logical context " ++ id
  | .updateRank id rank => "set rank of " ++ id ++ " to " ++ toString rank
  | .addElement e => "add " ++ e.label
  | .removeElement id => "remove element " ++ ElementId.label id
  | .retarget id ts => "retarget element " ++ ElementId.label id ++ " to " ++ Text.quotedList ts
  | .refreshFilters p => "refresh filters of " ++ p.text

structure Batch where
  label : String
  changes : List Change
  deriving DecidableEq

namespace Deployment

/-- The element as a copy that is not deployed. -/
def anotherCopy (d : Deployment) (e : Element) : Element := { e with copy := d.nextCopy }

def isTargeted (d : Deployment) (id : ContextId) : Bool :=
  d.elements.values.any (·.element.targets.contains id)

/-- Forgets removed contexts that no element names any more. -/
def prune (d : Deployment) : Deployment :=
  { d with withdrawn := d.withdrawn.filter fun id _ => d.isTargeted id }

def checkTargets (d : Deployment) (ts : List ContextId) : Except ValidationError Unit :=
  match ts.find? fun t => !d.contexts.logical.contains t with
  | some t => .error (.unknownContext t)
  | none => .ok ()

def addElement (d : Deployment) (e : Element) : Except ValidationError Deployment :=
  if d.elements.contains e.id then .error (.duplicateElement e.id)
  else
    (d.checkTargets e.targets).map fun _ =>
      { d with
        elements := d.elements.insert e.id { element := e }
        nextCopy := max d.nextCopy (e.copy + 1) }

def retarget (d : Deployment) (id : ElementId) (ts : List ContextId) :
    Except ValidationError Deployment :=
  match d.checkTargets ts with
  | .error e => .error e
  | .ok _ =>
    match d.elements.find? id with
    | none => .error (.unknownElement id)
    | some s =>
      let s := { s with element := s.element.withTargets ts d.nextCopy }
      .ok (prune { d with elements := d.elements.insert id s, nextCopy := d.nextCopy + 1 })

def apply (d : Deployment) : Change → Except ValidationError Deployment
  | .addPhysical p => .ok { d with contexts := d.contexts.pin p }
  | .removePhysical p => (d.contexts.removePhysical p).map fun cs => { d with contexts := cs }
  | .addContext c =>
    (d.contexts.bind c).map fun cs =>
      { d with contexts := cs, withdrawn := d.withdrawn.erase c.id }
  | .removeContext id =>
    (d.contexts.unbind id).map fun (c, cs) =>
      { d with
        contexts := cs
        withdrawn := if d.isTargeted id then d.withdrawn.insert id c.path else d.withdrawn }
  | .updateRank id rank =>
    (d.contexts.updateRank id rank).map fun cs => { d with contexts := cs }
  | .addElement e => d.addElement e
  | .removeElement id =>
    if d.elements.contains id then .ok (prune { d with elements := d.elements.erase id })
    else .error (.unknownElement id)
  | .retarget id ts => d.retarget id ts
  | .refreshFilters p =>
    if d.contexts.physical.contains p then .ok d else .error (.unknownPhysicalContext p.text)

/-- Makes changes in order; an invalid one is reported with its place, `index` being that of the
first. -/
def applyAll (d : Deployment) (index : Nat) :
    List Change → Except (Nat × Change × ValidationError) Deployment
  | [] => .ok d
  | c :: cs =>
    match d.apply c with
    | .error e => .error (index, c, e)
    | .ok d => d.applyAll (index + 1) cs

end Deployment

def Change.refreshed (cs : List Change) : OrdSet ContextPath :=
  OrdSet.ofList (cs.filterMap fun c => match c with
    | .refreshFilters p => some p
    | _ => none)

end ServletContainer
