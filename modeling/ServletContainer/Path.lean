import ServletContainer.Error
import ServletContainer.Text.Blank
import ServletContainer.Text.Cut

/-! Mount paths: their normal form, and the part of a request path below one. -/
namespace ServletContainer

/-- The path at which contexts are mounted, in its normal form; the root is `/`. -/
structure ContextPath where
  text : String
  deriving DecidableEq, Inhabited

namespace ContextPath

open Text

instance : Ord ContextPath := ⟨fun p q => compare p.text q.text⟩

theorem compare_def (p q : ContextPath) : compare p q = compare p.text q.text := rfl

instance : Std.TransOrd ContextPath where
  eq_swap := by
    intro p q
    simp only [compare_def]
    exact Std.OrientedCmp.eq_swap
  isLE_trans := by
    intro p q r
    simp only [compare_def]
    exact Std.TransCmp.isLE_trans

instance : Std.LawfulEqOrd ContextPath where
  compare_self := by
    intro p
    simp only [compare_def]
    exact Std.ReflCmp.compare_self
  eq_of_compare := by
    intro ⟨p⟩ ⟨q⟩ h
    simp only [compare_def] at h
    exact congrArg mk (Std.LawfulEqCmp.eq_of_compare h)

def root : ContextPath := ⟨"/"⟩

def isRoot (p : ContextPath) : Bool := p.text == "/"

/-- What precedes an in-context path in a request path: nothing for the root. -/
def lead (p : ContextPath) : String := if p.isRoot then "" else p.text

/-- Two slashes in a row. -/
def hasEmptySegment : List Char → Bool
  | '/' :: '/' :: _ => true
  | _ :: cs => hasEmptySegment cs
  | [] => false

/-- Whether a trimmed text other than `/` can be a mount path. -/
def isPlain (cs : List Char) : Bool :=
  cs.head? == some '/' && !hasEmptySegment cs &&
    !(cs.any fun c => c == '*' || c == '?' || c == '#' || c == ' ') &&
    !(splitAll '/' cs).contains ['.', '.']

/-- The normal form: trimmed, without trailing slashes. -/
def normalize (cs : List Char) : Except (List Char) (List Char) :=
  let cs := trimChars cs
  if cs = [] ∨ cs = ['/'] then .ok ['/']
  else if isPlain cs then .ok (dropEnd (· == '/') cs)
  else .error cs

def parse (s : String) : Except ValidationError ContextPath :=
  match normalize s.toList with
  | .ok cs => .ok ⟨String.ofList cs⟩
  | .error cs => .error (.invalidPath (String.ofList cs))

/-- The part of a request path below `mount`, which must end at a segment's end; the root contains
every absolute path and hands it back whole. -/
def belowChars (mount request : List Char) : Option (List Char) :=
  if mount = ['/'] then
    if request.head? = some '/' then some request else none
  else
    match cutStart mount request with
    | some rest => if rest = [] ∨ rest.head? = some '/' then some rest else none
    | none => none

def below (mount request : String) : Option String :=
  (belowChars mount.toList request.toList).map String.ofList

end ContextPath

end ServletContainer
