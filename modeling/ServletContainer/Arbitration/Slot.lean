import ServletContainer.Element.Basic

/-! The slots that elements compete for: in each mount an element takes its name in its namespace,
its url patterns if it answers requests, and the errors it handles if it is an error page. -/
namespace ServletContainer

/-- How an element mapped to several mounts is arbitrated. -/
inductive Policy where
  /-- It is enabled in all of its mounts or in none. -/
  | strict
  /-- Each mount is arbitrated on its own. -/
  | perContext
  deriving DecidableEq

def Policy.slug : Policy → String
  | .strict => "strict"
  | .perContext => "per_context"

/-- The kinds of elements among which a name is unique. -/
inductive Namespace where
  /-- Servlets and resources. -/
  | servlet
  | filter
  | listener
  | errorPage
  | welcomeFile
  deriving DecidableEq

def Namespace.ofKind : ElementKind → Namespace
  | .servlet => .servlet
  | .resource => .servlet
  | .filter => .filter
  | .listener => .listener
  | .errorPage => .errorPage
  | .welcomeFile => .welcomeFile

def Namespace.index : Namespace → Nat
  | .servlet => 0
  | .filter => 1
  | .listener => 2
  | .errorPage => 3
  | .welcomeFile => 4

def Namespace.title : Namespace → String
  | .servlet => "Servlet"
  | .filter => "Filter"
  | .listener => "Listener"
  | .errorPage => "ErrorPage"
  | .welcomeFile => "WelcomeFile"

def Namespace.slug : Namespace → String
  | .servlet => "servlet"
  | .filter => "filter"
  | .listener => "listener"
  | .errorPage => "error_page"
  | .welcomeFile => "welcome_file"

inductive Slot where
  | name (n : String)
  | pattern (p : UrlPattern)
  | error (e : ErrorKey)
  deriving DecidableEq

/-- The place of a slot in listings: its class, the class of what it holds, a number, a text. -/
def Slot.place : Slot → Nat × Nat × Nat × String
  | .name n => (0, 0, 0, n)
  | .pattern (.exact p) => (1, 0, 0, p)
  | .pattern (.subtree p) => (1, 1, 0, p)
  | .pattern (.extension e) => (1, 2, 0, e)
  | .pattern .fallback => (1, 3, 0, "")
  | .error (.code n) => (2, 0, n, "")
  | .error .clientErrors => (2, 1, 0, "")
  | .error .serverErrors => (2, 2, 0, "")
  | .error (.exception k) => (2, 3, 0, k)

/-- A slot in one mount. -/
structure SlotKey where
  physical : ContextPath
  space : Namespace
  slot : Slot
  deriving DecidableEq

namespace SlotKey

def label (k : SlotKey) : String :=
  let owner := k.physical.text ++ ":" ++ k.space.title
  match k.slot with
  | .name n => owner ++ " name " ++ Text.quoted n
  | .pattern p => owner ++ " pattern " ++ p.text
  | .error e => owner ++ " error " ++ e.text

def compare (a b : SlotKey) : Ordering :=
  let (a1, a2, a3, a4) := a.slot.place
  let (b1, b2, b3, b4) := b.slot.place
  (Ord.compare a.physical b.physical).then <|
  (Ord.compare a.space.index b.space.index).then <|
  (Ord.compare a1 b1).then <| (Ord.compare a2 b2).then <|
  (Ord.compare a3 b3).then (Ord.compare a4 b4)

def le (a b : SlotKey) : Bool := a.compare b != .gt

end SlotKey

def Element.slots (e : Element) : List Slot :=
  .name e.name ::
    match e.details with
    | .servlet _ => e.patterns.urlPatterns.map .pattern
    | .resource _ => e.patterns.urlPatterns.map .pattern
    | .errorPage errors _ => errors.map .error
    | _ => []

def Element.slotKeys (e : Element) (physical : List ContextPath) : List SlotKey :=
  physical.flatMap fun p => e.slots.map fun s => ⟨p, .ofKind e.kind, s⟩

end ServletContainer
