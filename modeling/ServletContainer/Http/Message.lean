import ServletContainer.Context.Basic
import ServletContainer.Http.Uri
import ServletContainer.Text.Utf8

/-! Requests and responses as collaborators see and change them. -/
namespace ServletContainer

def isToken (s : String) : Bool :=
  !s.isEmpty && s.toList.all fun c =>
    c.isAlphanum || "!#$%&'*+-.^_\x60|~".toList.contains c

abbrev Headers := List (String × Bytes)

namespace Headers

def keyOf (name : String) : String := String.ofList (name.toList.map Char.toLower)

/-- The first value of a field; a name that is no token has none. -/
def get? (h : Headers) (name : String) : Option Bytes :=
  if isToken name then h.lookup (keyOf name) else none

def append (h : Headers) (name : String) (value : Bytes) : Headers := h ++ [(keyOf name, value)]

/-- Makes the value the only one of its field, in the field's place. -/
def put (h : Headers) (name : String) (value : Bytes) : Headers :=
  let key := keyOf name
  match h with
  | [] => [(key, value)]
  | f :: fs =>
    if f.1 = key then (key, value) :: fs.filter fun g => g.1 ≠ key else f :: put fs name value

theorem lookup_cons (name : String) (value : Bytes) (fs : Headers) (key : String) :
    List.lookup key ((name, value) :: fs) = if key = name then some value else fs.lookup key := by
  rw [List.lookup_cons]
  split
  · rename_i h
    rw [if_pos (beq_iff_eq.1 h)]
  · rename_i h
    rw [if_neg (beq_eq_false_iff_ne.1 h)]

theorem lookup_filter_ne {key other : String} (h : other ≠ key) (fs : Headers) :
    (fs.filter fun f => f.1 ≠ key).lookup other = fs.lookup other := by
  induction fs with
  | nil => rfl
  | cons f fs ih =>
    obtain ⟨name, value⟩ := f
    by_cases hname : name = key
    · rw [List.filter_cons_of_neg (by simpa using hname), ih, lookup_cons, if_neg (hname ▸ h)]
    · rw [List.filter_cons_of_pos (by simpa using hname), lookup_cons, lookup_cons, ih]

theorem lookup_put (h : Headers) (name : String) (value : Bytes) (key : String) :
    (h.put name value).lookup key = if key = keyOf name then some value else h.lookup key := by
  induction h with
  | nil => exact lookup_cons ..
  | cons f fs ih =>
    obtain ⟨other, content⟩ := f
    by_cases hother : other = keyOf name
    · subst hother
      simp only [put, if_true, lookup_cons]
      split
      · rfl
      · exact lookup_filter_ne ‹_› fs
    · simp only [put, if_neg hother, lookup_cons, ih]
      by_cases hkey : key = other
      · rw [if_pos hkey, if_pos hkey, if_neg (hkey ▸ hother)]
      · rw [if_neg hkey, if_neg hkey]

theorem get?_put (h : Headers) (name : String) (value : Bytes) (field : String) :
    (h.put name value).get? field =
      if isToken field ∧ keyOf field = keyOf name then some value else h.get? field := by
  unfold get?
  by_cases hfield : isToken field <;> simp [hfield, lookup_put]

end Headers

/-- A header value may hold tabs, visible characters, spaces and octets from 128 on. -/
def isHeaderValue (v : Bytes) : Bool := v.all fun b => b == 9 || (32 ≤ b && b != 127)

/-- A request as it arrives. -/
structure Incoming where
  method : String := "GET"
  uri : Uri
  headers : Headers := []
  body : Bytes := []

def Incoming.build? (method uri : String) (headers : List (String × Bytes)) (body : Bytes) :
    Option Incoming := do
  let uri ← (Uri.parse uri).toOption
  if isToken method && headers.all fun (n, v) => isToken n && isHeaderValue v then
    return ⟨method, uri, headers.foldl (fun h (n, v) => Headers.append h n v) [], body⟩
  else none

/-- A request on its way: what arrived, and the paths and the view resolved for it so far. -/
structure Request extends Incoming where
  contextPath : String := ""
  servletPath : String := ""
  pathInfo : Option String := none
  view : Option View := none
  attributes : OrdMap String String := ∅

namespace Request

def setPaths (r : Request) (context servlet : String) (info : Option String) : Request :=
  { r with contextPath := context, servletPath := servlet, pathInfo := info }

def pathInContext (r : Request) : String := r.servletPath ++ r.pathInfo.getD ""

end Request

/-- A buffered response. -/
structure Response where
  status : Nat := 200
  headers : Headers := []
  body : Bytes := []
  deriving DecidableEq

namespace Response

def write (r : Response) (data : Bytes) : Response := { r with body := r.body ++ data }

def writeText (r : Response) (s : String) : Response := r.write (Utf8.encode s)

/-- Sets the status and drops the body. -/
def sendError (r : Response) (status : Nat) : Response := { r with status := status, body := [] }

def setHeader (r : Response) (name value : String) : Response :=
  { r with headers := r.headers.put name (Utf8.encode value) }

/-- Drops the body and points elsewhere; a location that no header can hold is left out. -/
def sendRedirect (r : Response) (location : String) : Response :=
  let r := { r with status := 302, body := [] }
  if isHeaderValue (Utf8.encode location) then r.setHeader "location" location else r

end Response

end ServletContainer
