import ServletContainer.Json.Parser

/-! Structured data as configuration files hold it, whatever the format of the file. -/
namespace ServletContainer

inductive Document where
  | null
  | bool (b : Bool)
  | int (n : Int)
  /-- A number with a fraction or an exponent; no setting takes one. -/
  | real
  | text (s : String)
  | list (items : List Document)
  | table (entries : List (String × Document))
  deriving Inhabited

namespace Document

mutual

def ofJson : Json → Document
  | .null => .null
  | .bool b => .bool b
  | .int n => .int n
  | .real _ => .real
  | .str s => .text s
  | .arr items => .list (ofItems items)
  | .obj members => .table (ofMembers members)

def ofItems : List Json → List Document
  | [] => []
  | v :: vs => ofJson v :: ofItems vs

def ofMembers : List (String × Json) → List (String × Document)
  | [] => []
  | (k, v) :: ms => (k, ofJson v) :: ofMembers ms

end

end Document

end ServletContainer
