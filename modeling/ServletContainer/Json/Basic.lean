import ServletContainer.Decimal.Shortest

/-! JSON values. Members of an object keep their order. -/
namespace ServletContainer

inductive Json where
  | null
  | bool (b : Bool)
  | int (n : Int)
  | real (d : Decimal)
  | str (s : String)
  | arr (items : List Json)
  | obj (members : List (String × Json))
  deriving Inhabited

namespace Json

def nat (n : Nat) : Json := .int n

def strs (xs : List String) : Json := .arr (xs.map .str)

def nats (xs : List Nat) : Json := .arr (xs.map .nat)

def option (f : α → Json) : Option α → Json
  | none => .null
  | some a => f a

def optStr : Option String → Json := option .str

/-- The value of a member; of a repeated key, the last one counts. -/
def member? (key : String) : Json → Option Json
  | .obj ms => (ms.reverse.find? fun m => m.1 == key).map (·.2)
  | _ => none

end Json

end ServletContainer
