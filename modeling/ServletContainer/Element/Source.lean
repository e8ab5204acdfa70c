import ServletContainer.Error
import ServletContainer.Ordered.Map
import ServletContainer.Script

/-! Where the instances of collaborators come from: given objects, classes looked up by name, and
suppliers. Copies of an element share one memo, kept under the element's number; what a class or a
singleton supplier has made once is used from then on, failures are not remembered. -/
namespace ServletContainer

/-- What a servlet does. -/
inductive Servlet where
  | script (s : Script)
  /-- Answers with the paths of the request. -/
  | echo
  /-- Answers with the state of the server. -/
  | inspect
  deriving DecidableEq

/-- What a filter does. -/
inductive Filter where
  | script (s : Script)
  /-- Passes every request on. -/
  | accessLog
  deriving DecidableEq

/-- What a context listener does. -/
inductive Listener where
  /-- Notes its tag when it is called; `upOnly` listeners do so for greetings alone. -/
  | tagged (tag : String) (upOnly : Bool)
  | silent
  deriving DecidableEq

inductive SupplierScope where
  | singleton
  | perLookup
  deriving DecidableEq

def SupplierScope.name : SupplierScope → String
  | .singleton => "Singleton"
  | .perLookup => "PerLookup"

/-- Where an instance comes from; `α` says what the instance can do. -/
inductive Source (α : Type) where
  | given (a : α)
  | classRef (name : String)
  /-- A supplier whose first `failures` calls fail with the given message. -/
  | supplier (scope : SupplierScope) (a : α) (failures : Nat) (failure : String)
  deriving DecidableEq

namespace Source

def className : Source α → Option String
  | .classRef name => some name
  | _ => none

def description : Source α → String
  | .given _ => "instance"
  | .classRef name => "class " ++ name
  | .supplier scope .. => "supplier (" ++ scope.name ++ ")"

end Source

/-- An instance, with its number among those made by its supplier or class. -/
structure Instance (α : Type) where
  behaviour : α
  number : Nat
  deriving DecidableEq

/-- A registered class and how often it was constructed. -/
structure Class (α : Type) where
  behaviour : α
  calls : Nat := 0
  deriving DecidableEq

/-- What is remembered for an element's source: the calls of its supplier, and the shared
instance. -/
structure Memo (α : Type) where
  calls : Nat := 0
  shared : Option (Instance α) := none
  deriving DecidableEq

/-- The classes of one kind of collaborator and the memos of its sources. -/
structure Roster (α : Type) where
  classes : OrdMap String (Class α) := ∅
  memos : OrdMap Nat (Memo α) := ∅
  deriving DecidableEq

namespace Roster

/-- Registers a class; an earlier one of that name is forgotten. -/
def register (r : Roster α) (name : String) (a : α) : Roster α :=
  { r with classes := r.classes.insert name { behaviour := a } }

def hasClass (r : Roster α) (name : String) : Bool := r.classes.contains name

def memo (r : Roster α) (key : Nat) : Memo α := (r.memos.find? key).getD {}

def setMemo (r : Roster α) (key : Nat) (m : Memo α) : Roster α :=
  { r with memos := r.memos.insert key m }

def call (r : Roster α) (key : Nat) (a : α) (failures : Nat) (failure : String) :
    Except DispatchError (Instance α) × Roster α :=
  let m := r.memo key
  let r := r.setMemo key { m with calls := m.calls + 1 }
  if m.calls < failures then (.error (.instantiation "supplier" failure), r)
  else (.ok ⟨a, m.calls + 1⟩, r)

/-- Keeps a successful instance for later look-ups. -/
def share (key : Nat) :
    Except DispatchError (Instance α) × Roster α → Except DispatchError (Instance α) × Roster α
  | (.ok i, r) => (.ok i, r.setMemo key { r.memo key with shared := some i })
  | failed => failed

/-- The instance for one look-up of the source whose memo is kept under `key`. -/
def resolve (r : Roster α) (key : Nat) (s : Source α) :
    Except DispatchError (Instance α) × Roster α :=
  match s with
  | .given a => (.ok ⟨a, 1⟩, r)
  | .supplier .perLookup a n e => r.call key a n e
  | .supplier .singleton a n e =>
    match (r.memo key).shared with
    | some i => (.ok i, r)
    | none => share key (r.call key a n e)
  | .classRef name =>
    match (r.memo key).shared with
    | some i => (.ok i, r)
    | none =>
      match r.classes.find? name with
      | none => (.error (.instantiation name "class is not registered"), r)
      | some c =>
        let i : Instance α := ⟨c.behaviour, c.calls + 1⟩
        let r := { r with classes := r.classes.insert name { c with calls := c.calls + 1 } }
        share key (.ok i, r)

end Roster

/-- All classes and memos. -/
structure Pool where
  servlets : Roster Servlet := {}
  filters : Roster Filter := {}
  listeners : Roster Listener := {}
  deriving DecidableEq

namespace Pool

def servlet (p : Pool) (key : Nat) (s : Source Servlet) :
    Except DispatchError (Instance Servlet) × Pool :=
  let (i, r) := p.servlets.resolve key s
  (i, { p with servlets := r })

def filter (p : Pool) (key : Nat) (s : Source Filter) :
    Except DispatchError (Instance Filter) × Pool :=
  let (i, r) := p.filters.resolve key s
  (i, { p with filters := r })

def listener (p : Pool) (key : Nat) (s : Source Listener) :
    Except DispatchError (Instance Listener) × Pool :=
  let (i, r) := p.listeners.resolve key s
  (i, { p with listeners := r })

end Pool

end ServletContainer
