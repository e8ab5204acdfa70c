import ServletContainer.Deployment.Change

/-! What a batch means for an engine: arbitrating what it touched, and the effects that lead from
the state before to the state after, in the order in which they are to be applied. -/
namespace ServletContainer

inductive Effect where
  | createPhysical (path : ContextPath)
  | destroyPhysical (path : ContextPath)
  | bindContext (c : LogicalContext)
  | unbindContext (id : ContextId) (path : ContextPath)
  /-- The element became enabled in a mount, served under a context. -/
  | activate (e : Element) (path : ContextPath) (context : Option LogicalContext)
  | deactivate (e : Element) (path : ContextPath) (context : Option LogicalContext)
  /-- All enabled filters of a mount, in chain order. -/
  | updateFilters (path : ContextPath) (filters : List Element)
  deriving DecidableEq

namespace Effect

/-- Teardown comes first, and filter lists come last. -/
def stage : Effect → Nat
  | .deactivate .. => 0
  | .unbindContext .. => 1
  | .destroyPhysical _ => 2
  | .createPhysical _ => 3
  | .bindContext _ => 4
  | .activate .. => 5
  | .updateFilters .. => 6

def label : Effect → String
  | .createPhysical p => "create " ++ p.text
  | .destroyPhysical p => "destroy " ++ p.text
  | .bindContext c => "bind " ++ c.id ++ " to " ++ c.path.text
  | .unbindContext id p => "unbind " ++ id ++ " from " ++ p.text
  | .activate e p _ => "activate " ++ e.label ++ " in " ++ p.text
  | .deactivate e p _ => "deactivate " ++ e.label ++ " in " ++ p.text
  | .updateFilters p fs => "update " ++ toString fs.length ++ " filters of " ++ p.text

end Effect

namespace Deployment

def idsOf (before after : Deployment) : List ElementId :=
  (OrdSet.ofList (before.elements.keys ++ after.elements.keys)).elems

def slotsOf (d : Deployment) (s : Deployed) : List SlotKey :=
  s.element.slotKeys (d.physicalOf s.element)

/-- Whether an element is another copy than before, or is mapped to other mounts. -/
def isTouched (before after : Deployment) (id : ElementId) : Bool :=
  match before.elements.find? id, after.elements.find? id with
  | some old, some new =>
    old.element != new.element ||
      before.physicalOf old.element != after.physicalOf new.element
  | _, _ => true

def touched (before after : Deployment) : List ElementId :=
  (idsOf before after).filter (isTouched before after)

def slotsOfId (d : Deployment) (id : ElementId) : List SlotKey :=
  match d.elements.find? id with
  | some s => d.slotsOf s
  | none => []

def seeds (before after : Deployment) : List SlotKey :=
  (touched before after).flatMap fun id => before.slotsOfId id ++ after.slotsOfId id

def candidateOf (d : Deployment) (e : Element) : Candidate :=
  { element := e, physical := d.physicalOf e }

def resolver (d : Deployment) : Resolver := ⟨d.policy, d.elementList.map d.candidateOf⟩

/-- Takes over where elements are enabled; a touched element without mounts is enabled nowhere. -/
def takeOver (d : Deployment) (enabled : OrdMap ElementId (OrdSet ContextPath))
    (touched : List ElementId) : Deployment :=
  { d with elements := d.elements.mapWithKey fun id s =>
      if touched.contains id && (d.physicalOf s.element).isEmpty then { s with enabledIn := ∅ }
      else { s with enabledIn := (enabled.find? id).getD s.enabledIn } }

/-- Arbitrates again what changed since `before`; also says how many slots were processed. -/
def rearbitrate (before after : Deployment) : Deployment × Nat :=
  let resolution := after.resolver.resolve (seeds before after)
  (after.takeOver resolution.enabled (touched before after), resolution.iterations)

def isMoved (other : Deployment) (c : LogicalContext) : Bool :=
  match other.contexts.find? c.id with
  | some o => o.rank != c.rank || o.path != c.path
  | none => true

/-- Whether an element is deployed before and after as different copies. -/
def isReplaced (before after : Deployment) (id : ElementId) : Bool :=
  match before.elements.find? id, after.elements.find? id with
  | some old, some new => old.element != new.element
  | _, _ => false

/-- The mounts of `d` in which the element is enabled, less those where it is enabled in `other`
as the same copy. -/
def enabledOnlyIn (d other : Deployment) (replaced : Bool) (id : ElementId) : List ContextPath :=
  (d.enabledIn id).elems.filter fun p => replaced || !(other.enabledIn id).contains p

def switchEffects (before after : Deployment) (id : ElementId) : List Effect :=
  let replaced := isReplaced before after id
  let off := match before.elements.find? id with
    | some s => (before.enabledOnlyIn after replaced id).map fun p =>
        .deactivate s.element p (before.contextFor s.element p)
    | none => []
  let on := match after.elements.find? id with
    | some s => (after.enabledOnlyIn before replaced id).map fun p =>
        .activate s.element p (after.contextFor s.element p)
    | none => []
  off ++ on

def filterPath? : Effect → Option ContextPath
  | .activate e p _ => if e.kind = .filter then some p else none
  | .deactivate e p _ => if e.kind = .filter then some p else none
  | _ => none

/-- The effects that lead from one state to another, in the order of their stages. -/
def effects (before after : Deployment) (refresh : OrdSet ContextPath) : List Effect :=
  let destroyed := before.contexts.paths.filter fun p => !after.contexts.physical.contains p
  let created := after.contexts.paths.filter fun p => !before.contexts.physical.contains p
  let unbound := before.contexts.logical.values.filter (isMoved after)
  let bound := after.contexts.logical.values.filter (isMoved before)
  let switched := (idsOf before after).flatMap (switchEffects before after)
  let filterPaths := (refresh.union (OrdSet.ofList (switched.filterMap filterPath?))).elems
  let lists := filterPaths.filter after.contexts.physical.contains
  sortBy (fun a b => a.stage ≤ b.stage) <|
    destroyed.map .destroyPhysical ++ created.map .createPhysical ++
    unbound.map (fun c => .unbindContext c.id c.path) ++ bound.map .bindContext ++ switched ++
    lists.map fun p => .updateFilters p (after.enabledFilters p)

end Deployment

end ServletContainer
