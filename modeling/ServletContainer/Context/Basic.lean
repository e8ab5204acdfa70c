import ServletContainer.Ordered.Map
import ServletContainer.Path
import ServletContainer.Script

/-! Logical contexts: named scopes of security and resources, each bound to one mount path. -/
namespace ServletContainer

structure SessionSettings where
  timeoutMinutes : Nat := 30
  cookieName : String := "JSESSIONID"
  deriving DecidableEq

/-- A request header that must be present, with the given value if there is one. -/
structure HeaderRule where
  name : String
  value : Option String
  deriving DecidableEq

/-- Security and resources of a context. -/
inductive Helper where
  /-- Lets everything pass and has no resources. -/
  | bare
  /-- Resources below a directory, and a header that requests must carry. -/
  | directory (base : Option String) (rule : Option HeaderRule)
  /-- Runs one script before the request and another one after it. A name leads to where the table says for
  the module that asks; if there is no table, it leads into the folder of the module. -/
  | scripted (allow : Bool) (security finish : Script)
    (table : Option (List ((Option Module × String) × String)) := none)
  deriving DecidableEq

def Helper.standard : Helper := .directory none none

structure LogicalContext where
  id : ContextId
  path : ContextPath
  rank : Int := 0
  /-- The place in the order of creation. -/
  order : Nat
  owner : Option Module := none
  helper : Helper := .standard
  init : OrdMap String String := ∅
  session : SessionSettings := {}
  deriving DecidableEq

/-- A context as an element of some module sees it. -/
structure View where
  context : LogicalContext
  module : Option Module
  deriving DecidableEq

/-- Higher rank first, then earlier creation. -/
def LogicalContext.precedes (a b : LogicalContext) : Bool :=
  b.rank < a.rank || (a.rank == b.rank && a.order ≤ b.order)

end ServletContainer
