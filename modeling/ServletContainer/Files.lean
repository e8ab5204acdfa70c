import ServletContainer.Ordered.Map
import ServletContainer.Text.Cut
import ServletContainer.Text.Utf8

/-! The directory that resources are read from: files by their path below its root. -/
namespace ServletContainer

structure Files where
  root : String
  entries : OrdMap String Bytes

namespace Files

open Text

def join (base rel : String) : String :=
  if rel.toList.head? = some '/' then rel
  else if base = "" ∨ base.toList.getLast? = some '/' then base ++ rel
  else base ++ "/" ++ rel

def segments (path : String) : List String :=
  ((splitAll '/' path.toList).filter fun s => s ≠ [] ∧ s ≠ ['.']).map String.ofList

/-- What two spellings of one path share: whether it starts at the root, and its segments; of a path
that does not start there, a leading dot is one. -/
def spelling (path : String) : Bool × List String :=
  let isRooted := path.toList.head? == some '/'
  let dot := if (splitAll '/' path.toList).head? = some ['.'] then ["."] else []
  (isRooted, dot ++ segments path)

def keyOf (segs : List String) : String := "/".intercalate segs

def write (fs : Files) (path : String) (content : Bytes) : Files :=
  { fs with entries := fs.entries.insert (keyOf (segments path)) content }

def delete (fs : Files) (path : String) : Files :=
  { fs with entries := fs.entries.erase (keyOf (segments path)) }

/-- Whether some file lies below the place. -/
def isDirectory (fs : Files) (segs : List String) : Bool :=
  segs.isEmpty ||
    fs.entries.keys.any fun k => (cutStart ((keyOf segs).toList ++ ['/']) k.toList).isSome

/-- The file that a path leads to, from a directory given by its segments. A file can only end the
path. -/
def follow (fs : Files) (here : List String) : List (List Char) → Option Bytes
  | [] => none
  | s :: rest =>
    if s = [] ∨ s = ['.'] then follow fs here rest
    else if s = ['.', '.'] then
      if here = [] then none else follow fs here.dropLast rest
    else
      let there := here ++ [String.ofList s]
      match fs.entries.find? (keyOf there) with
      | some content => if rest = [] then some content else none
      | none => if fs.isDirectory there then follow fs there rest else none

/-- The content of the file at a full path. -/
def read? (fs : Files) (path : String) : Option Bytes :=
  match cutStart (fs.root.toList ++ ['/']) path.toList with
  | some rest => fs.follow [] (splitAll '/' rest)
  | none => none

def shown (fs : Files) (path : String) : String :=
  if path = fs.root then ""
  else
    match cutStart (fs.root.toList ++ ['/']) path.toList with
    | some rest => String.ofList rest
    | none => path

def isFile (fs : Files) (path : String) : Bool := (fs.read? path).isSome

end Files

end ServletContainer
