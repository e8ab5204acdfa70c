import ServletContainer.Deployment.Effect
import ServletContainer.Element.Source

/-! The engine that serves requests itself. It keeps what is mounted where, and it greets context
listeners when they are activated and says goodbye when they are withdrawn. A list of effects is
checked as a whole before anything is done; the notices wait until the batch is committed. -/
namespace ServletContainer

structure EngineSettings where
  name : String := "in-process"
  properties : OrdMap String String := ∅
  deriving DecidableEq

/-- What is mounted at a path: its contexts, its active elements, and its filters in chain order. -/
structure Occupancy where
  contexts : OrdSet ContextId := ∅
  elements : OrdSet ElementId := ∅
  filters : List ElementId := []
  deriving DecidableEq

/-- A call of a context listener: a greeting (`up`) or a goodbye. -/
structure Notice where
  up : Bool
  element : ElementId
  path : ContextPath
  listener : Instance Listener
  view : View
  deriving DecidableEq

abbrev Post := ElementId × ContextPath

abbrev Attendance := List (Post × Instance Listener)

/-- Takes the listener off a post, if it has one. -/
def Attendance.release (r : Attendance) (post : Post) : Option (Instance Listener) × Attendance :=
  (r.lookup post, r.filter fun l => l.1 ≠ post)

def Attendance.appoint (r : Attendance) (post : Post) (l : Instance Listener) : Attendance :=
  (post, l) :: (r.release post).2

structure InProcess where
  running : Bool := false
  checkClasses : Bool := true
  mounts : OrdMap ContextPath Occupancy := ∅
  /-- The listeners that were greeted and are still active. -/
  listeners : Attendance := []
  pending : List Notice := []
  deriving DecidableEq

namespace InProcess

def engineName : String := "in-process"

def refuse (effect reason : String) : EngineError := ⟨engineName, effect, reason⟩

def configure (s : InProcess) (settings : EngineSettings) : Except EngineError InProcess :=
  match settings.properties.find? "check_classes" with
  | none => .ok { s with checkClasses := true }
  | some "true" => .ok { s with checkClasses := true }
  | some "false" => .ok { s with checkClasses := false }
  | some v =>
    .error (refuse "configure" ("check_classes must be true or false, got " ++ Text.quoted v))

def start (s : InProcess) : InProcess := { s with running := true }

def stop (s : InProcess) : InProcess :=
  { s with running := false, mounts := ∅, listeners := [] }

/-- Whether the class that an element refers to is registered for its kind. -/
def knowsClass (pool : Pool) (e : Element) : Bool :=
  match e.className with
  | none => true
  | some c =>
    match e.kind with
    | .servlet => pool.servlets.hasClass c
    | .filter => pool.filters.hasClass c
    | .listener => pool.listeners.hasClass c
    | _ => true

/-- What the check of a list of effects gathers: mounts to be created, and listeners found. -/
structure Check where
  pool : Pool
  created : List ContextPath := []
  found : Attendance := []

def findListener (ch : Check) (e : Element) (path : ContextPath)
    (context : Option LogicalContext) : Except DispatchError Unit × Check :=
  match e.details, context with
  | .listener source, some _ =>
    match ch.pool.listener e.id source with
    | (.ok i, pool) => (.ok (), { ch with pool := pool, found := ch.found.appoint (e.id, path) i })
    | (.error err, pool) => (.error err, { ch with pool := pool })
  | _, _ => (.ok (), ch)

def checkEffect (s : InProcess) (ch : Check) (f : Effect) : Except EngineError Unit × Check :=
  match f with
  | .createPhysical p => (.ok (), { ch with created := p :: ch.created })
  | .activate e p context =>
    if !s.mounts.contains p && !ch.created.contains p then
      (.error (refuse f.label "physical context is not mounted"), ch)
    else if s.checkClasses && !knowsClass ch.pool e then
      (.error (refuse f.label ("unknown class " ++ e.className.getD "")), ch)
    else
      match findListener ch e p context with
      | (.ok _, ch) => (.ok (), ch)
      | (.error err, ch) => (.error (refuse f.label err.message), ch)
  | _ => (.ok (), ch)

/-- Checks effects in order, up to the first that is refused. -/
def checkAll (s : InProcess) : Check → List Effect → Except EngineError Unit × Check
  | ch, [] => (.ok (), ch)
  | ch, f :: fs =>
    match s.checkEffect ch f with
    | (.ok _, ch) => s.checkAll ch fs
    | (.error e, ch) => (.error e, ch)

def modifyMount (s : InProcess) (p : ContextPath) (f : Occupancy → Occupancy) : InProcess :=
  { s with mounts := s.mounts.modify p f }

def notify (s : InProcess) (up : Bool) (e : Element) (p : ContextPath) (l : Instance Listener)
    (c : LogicalContext) : InProcess :=
  { s with pending := s.pending ++ [⟨up, e.id, p, l, ⟨c, e.owner⟩⟩] }

/-- Activates an element. The first activation at a post takes the listener that was found for it,
also one under no context, which greets nobody. -/
def activate (s : InProcess) (found : Attendance) (e : Element) (p : ContextPath)
    (context : Option LogicalContext) : InProcess × Attendance :=
  let s := s.modifyMount p fun m => { m with elements := m.elements.insert e.id }
  let (listener, found) := found.release (e.id, p)
  match listener, context with
  | some l, some c =>
    ({ s.notify true e p l c with listeners := s.listeners.appoint (e.id, p) l }, found)
  | _, _ => (s, found)

def deactivate (s : InProcess) (e : Element) (p : ContextPath)
    (context : Option LogicalContext) : InProcess :=
  let s := s.modifyMount p fun m => { m with elements := m.elements.erase e.id }
  let (listener, listeners) := s.listeners.release (e.id, p)
  let s := { s with listeners := listeners }
  match listener, context with
  | some l, some c => s.notify false e p l c
  | _, _ => s

/-- Does an effect that was checked before; what was found for its listener is used up. -/
def perform (s : InProcess) (found : Attendance) : Effect → InProcess × Attendance
  | .createPhysical p =>
    (if s.mounts.contains p then s else { s with mounts := s.mounts.insert p {} }, found)
  | .destroyPhysical p => ({ s with mounts := s.mounts.erase p }, found)
  | .bindContext c =>
    (s.modifyMount c.path fun m => { m with contexts := m.contexts.insert c.id }, found)
  | .unbindContext id p =>
    (s.modifyMount p fun m => { m with contexts := m.contexts.erase id }, found)
  | .activate e p context => s.activate found e p context
  | .deactivate e p context => (s.deactivate e p context, found)
  | .updateFilters p fs =>
    (s.modifyMount p fun m => { m with filters := fs.map (·.id) }, found)

def performAll (s : InProcess) (found : Attendance) : List Effect → InProcess × Attendance
  | [] => (s, found)
  | f :: fs => (s.perform found f).1.performAll (s.perform found f).2 fs

/-- Does a list of effects, or nothing at all; instances made by the check stay in the pool. -/
def apply (s : InProcess) (pool : Pool) (fs : List Effect) :
    Except EngineError InProcess × Pool :=
  if !s.running then
    (.error (refuse ((fs.head?.map Effect.label).getD "") "engine is not running"), pool)
  else
    match s.checkAll { pool := pool } fs with
    | (.error e, ch) => (.error e, ch.pool)
    | (.ok _, ch) => (.ok (s.performAll ch.found fs).1, ch.pool)

def committed (s : InProcess) : List Notice × InProcess := (s.pending, { s with pending := [] })

end InProcess

end ServletContainer
