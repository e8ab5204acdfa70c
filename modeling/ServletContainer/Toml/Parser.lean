import ServletContainer.Toml.Number
import ServletContainer.Toml.Table

/-! Reading TOML texts. Values may be nested less than eighty levels deep, and a key has fewer than
eighty parts. -/
namespace ServletContainer.Toml

def keyLimit : Nat := 79

def depthLimit : Nat := 79

/-- A date or a time has the form of a table with one entry. -/
def momentDocument (text : String) : Document :=
  .table [("$__toml_private_datetime", .text text)]

def plain? (cs : List Char) : Option (Document × List Char) :=
  match cs with
  | 't' :: 'r' :: 'u' :: 'e' :: rest => some (.bool true, rest)
  | 'f' :: 'a' :: 'l' :: 's' :: 'e' :: rest => some (.bool false, rest)
  | cs =>
    match moment? cs with
    | some (t, rest) => some (momentDocument t, rest)
    | none =>
      match real? cs with
      | some rest => some (.real, rest)
      | none => (integer? cs).map fun (n, rest) => (.int n, rest)

mutual

/-- A value; `fuel` bounds the number of steps, `depth` the levels of nesting. -/
def value? : Nat → Nat → List Char → Option (Document × List Char)
  | 0, _, _ => none
  | fuel + 1, depth, cs =>
    match cs with
    | '[' :: rest =>
      if depth = 0 then none
      else do
        let (items, rest) ← items? fuel (depth - 1) rest
        return (.list items, rest)
    | '\x7b' :: rest =>
      if depth = 0 then none
      else
        match skipSpace rest with
        | '\x7d' :: rest => some (.table [], rest)
        | rest => do
          let (es, rest) ← entries? fuel (depth - 1) [] rest
          return (.table (documentsOf es), rest)
    | '"' :: _ => (string? cs).map fun (s, rest) => (.text (String.ofList s), rest)
    | '\'' :: _ => (string? cs).map fun (s, rest) => (.text (String.ofList s), rest)
    | cs => plain? cs

def items? : Nat → Nat → List Char → Option (List Document × List Char)
  | 0, _, _ => none
  | fuel + 1, depth, cs => do
    match ← skipLines? false cs with
    | ']' :: rest => return ([], rest)
    | cs =>
      let (v, rest) ← value? fuel depth cs
      match ← skipLines? false rest with
      | ',' :: rest =>
        let (vs, rest) ← items? fuel depth rest
        return (v :: vs, rest)
      | ']' :: rest => return ([v], rest)
      | _ => none

def entries? : Nat → Nat → Entries → List Char → Option (Entries × List Char)
  | 0, _, _, _ => none
  | fuel + 1, depth, es, cs => do
    let (key, rest) ← key? keyLimit cs
    match rest with
    | '=' :: rest =>
      let (v, rest) ← value? fuel depth (skipSpace rest)
      let es ← es.assign key v
      match skipSpace rest with
      | ',' :: rest => entries? fuel depth es rest
      | '\x7d' :: rest => return (es, rest)
      | _ => none
    | _ => none

end

/-- What a line does to the document: it may open a table, and it may add an entry. -/
def line? (header : List String) (es : Entries) (cs : List Char) :
    Option (List String × Entries × List Char) :=
  match cs with
  | '[' :: '[' :: rest => do
    let (path, rest) ← key? keyLimit rest
    match rest with
    | ']' :: ']' :: rest => return (path, ← es.atHeader Entries.addItem path, rest)
    | _ => none
  | '[' :: rest => do
    let (path, rest) ← key? keyLimit rest
    match rest with
    | ']' :: rest => return (path, ← es.atHeader Entries.declare path, rest)
    | _ => none
  | cs => do
    let (key, rest) ← key? keyLimit cs
    match rest with
    | '=' :: rest =>
      let (v, rest) ← value? (2 * rest.length + 1) depthLimit (skipSpace rest)
      return (header, ← es.assignBelow header key v, rest)
    | _ => none

def lines? : Nat → List String → Entries → List Char → Option Entries
  | 0, _, _, _ => none
  | fuel + 1, header, es, cs =>
    match skipLines? false cs with
    | none => none
    | some [] => some es
    | some cs => do
      let (header, es, rest) ← line? header es cs
      lines? fuel header es (← lineEnd? rest)

/-- Reads a whole text, which may begin with a byte order mark. -/
def parse? (s : String) : Option Document :=
  let cs := match s.toList with
    | '\uFEFF' :: rest => rest
    | cs => cs
  (lines? (cs.length + 1) [] [] cs).map fun es => .table (documentsOf es)

end ServletContainer.Toml
