import ServletContainer.Document

/-! Putting a TOML document together from its headers and entries. A table may be declared once; a
table that was only passed through can still be declared, and one made by a dotted key can only be
extended by dotted keys and by the headers of tables below it. -/
namespace ServletContainer.Toml

/-- How a table came to be. -/
inductive Origin where
  /-- By its header, as an item of an array of tables, or as the whole document. -/
  | declared
  /-- On the way to a table below it. -/
  | implied
  /-- On the way of a dotted key. -/
  | dotted
  deriving DecidableEq

/-- A part of a document that is being put together. -/
inductive Node where
  | value (d : Document)
  | table (origin : Origin) (entries : List (String × Node))
  | tables (items : List (List (String × Node)))
  deriving Inhabited

abbrev Entries := List (String × Node)

namespace Entries

def put (es : Entries) (key : String) (n : Node) : Entries :=
  match es with
  | [] => [(key, n)]
  | e :: es => if e.1 = key then (key, n) :: es else e :: put es key n

/-- Changes the table at the end of a path, whose tables are made where there are none. Of an array
of tables the path takes the last item. `dotted` says that the path belongs to a dotted key, which
must not lead through a declared table. -/
def change (dotted : Bool) (f : Origin → Entries → Option Entries) :
    List String → Origin → Entries → Option Entries
  | [], origin, es => f origin es
  | key :: path, _, es =>
    match es.lookup key with
    | none =>
      let origin := if dotted then .dotted else .implied
      (change dotted f path origin []).map fun child => es.put key (.table origin child)
    | some (.value _) => none
    | some (.table origin child) =>
      if dotted && origin == .declared then none
      else (change dotted f path origin child).map fun child => es.put key (.table origin child)
    | some (.tables items) =>
      match items.getLast? with
      | none => none
      | some last =>
        (change dotted f path .declared last).map fun last =>
          es.put key (.tables (items.dropLast ++ [last]))

def declare (key : String) (es : Entries) : Option Entries :=
  match es.lookup key with
  | none => some (es.put key (.table .declared []))
  | some (.table .implied child) => some (es.put key (.table .declared child))
  | some _ => none

def addItem (key : String) (es : Entries) : Option Entries :=
  match es.lookup key with
  | none => some (es.put key (.tables [[]]))
  | some (.tables items) => some (es.put key (.tables (items ++ [[]])))
  | some _ => none

def addNew (key : String) (d : Document) (es : Entries) : Option Entries :=
  match es.lookup key with
  | none => some (es.put key (.value d))
  | some _ => none

def assign (key : List String) (d : Document) (es : Entries) : Option Entries :=
  match key with
  | [] => none
  | [k] => es.addNew k d
  | k :: ks =>
    let path := (k :: ks).dropLast
    let last := (k :: ks).getLast (List.cons_ne_nil k ks)
    es.change true (fun origin es => if origin = .dotted then es.addNew last d else none) path
      .declared

def atHeader (f : String → Entries → Option Entries) (path : List String) (es : Entries) :
    Option Entries :=
  match path.getLast? with
  | none => none
  | some key => es.change false (fun _ es => f key es) path.dropLast .declared

def assignBelow (header key : List String) (d : Document) (es : Entries) : Option Entries :=
  es.change false (fun _ es => es.assign key d) header .declared

end Entries

mutual

def Node.document : Node → Document
  | .value d => d
  | .table _ entries => .table (documentsOf entries)
  | .tables items => .list (tablesOf items)

def documentsOf : List (String × Node) → List (String × Document)
  | [] => []
  | (k, n) :: es => (k, n.document) :: documentsOf es

def tablesOf : List (List (String × Node)) → List Document
  | [] => []
  | es :: items => .table (documentsOf es) :: tablesOf items

end

end ServletContainer.Toml
