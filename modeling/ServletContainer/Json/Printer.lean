import ServletContainer.Json.Basic

/-! The text of a JSON value: compact, or indented by two spaces a level. -/
namespace ServletContainer.Json

def escapeChar (c : Char) : List Char :=
  match c with
  | '"' => ['\\', '"']
  | '\\' => ['\\', '\\']
  | '\x08' => ['\\', 'b']
  | '\x0c' => ['\\', 'f']
  | '\n' => ['\\', 'n']
  | '\r' => ['\\', 'r']
  | '\t' => ['\\', 't']
  | c =>
    let n := c.toNat
    if n < 0x20 then ['\\', 'u', '0', '0', Nat.digitChar (n / 16), Nat.digitChar (n % 16)]
    else [c]

def quote (s : String) : String :=
  String.ofList ('"' :: s.toList.flatMap escapeChar ++ ['"'])

mutual

def compact : Json → String
  | .null => "null"
  | .bool b => if b then "true" else "false"
  | .int n => toString n
  | .real d => d.text
  | .str s => quote s
  | .arr items => "[" ++ compactItems items ++ "]"
  | .obj members => "\x7b" ++ compactMembers members ++ "\x7d"

def compactItems : List Json → String
  | [] => ""
  | [v] => compact v
  | v :: vs => compact v ++ "," ++ compactItems vs

def compactMembers : List (String × Json) → String
  | [] => ""
  | [(k, v)] => quote k ++ ":" ++ compact v
  | (k, v) :: ms => quote k ++ ":" ++ compact v ++ "," ++ compactMembers ms

end

def lineAt (level : Nat) : String := "\n" ++ String.ofList (List.replicate (2 * level) ' ')

mutual

def prettyAt (level : Nat) : Json → String
  | .null => "null"
  | .bool b => if b then "true" else "false"
  | .int n => toString n
  | .real d => d.text
  | .str s => quote s
  | .arr [] => "[]"
  | .arr items => "[" ++ prettyItems (level + 1) items ++ lineAt level ++ "]"
  | .obj [] => "\x7b\x7d"
  | .obj members => "\x7b" ++ prettyMembers (level + 1) members ++ lineAt level ++ "\x7d"

def prettyItems (level : Nat) : List Json → String
  | [] => ""
  | [v] => lineAt level ++ prettyAt level v
  | v :: vs => lineAt level ++ prettyAt level v ++ "," ++ prettyItems level vs

def prettyMembers (level : Nat) : List (String × Json) → String
  | [] => ""
  | [(k, v)] => lineAt level ++ quote k ++ ": " ++ prettyAt level v
  | (k, v) :: ms =>
    lineAt level ++ quote k ++ ": " ++ prettyAt level v ++ "," ++ prettyMembers level ms

end

def pretty (v : Json) : String := prettyAt 0 v

end ServletContainer.Json
