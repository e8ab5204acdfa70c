import ServletContainer.Text.Cut

/-! Request targets: an absolute path with an optional query, `*`, an authority, or an absolute
form with scheme and authority. A fragment is dropped. -/
namespace ServletContainer

/-- Why a text is no request target. -/
inductive UriError where
  | empty
  | tooLong
  | schemeTooLong
  | invalidCharacter
  | invalidAuthority
  | invalidFormat
  deriving DecidableEq

def UriError.message : UriError → String
  | .empty => "empty string"
  | .tooLong => "uri too long"
  | .schemeTooLong => "scheme too long"
  | .invalidCharacter => "invalid uri character"
  | .invalidAuthority => "invalid authority"
  | .invalidFormat => "invalid format"

/-- What a request target addresses. -/
structure Uri where
  path : String
  query : Option String
  deriving DecidableEq

namespace Uri

def isPathChar (c : Char) : Bool :=
  let n := c.toNat
  n == 0x21 || n == 0x22 || (0x24 ≤ n && n ≤ 0x3B) || n == 0x3D || (0x40 ≤ n && n ≤ 0x5F) ||
    (0x61 ≤ n && n ≤ 0x7E) || 0x7F ≤ n

def isQueryChar (c : Char) : Bool :=
  let n := c.toNat
  n == 0x21 || (0x24 ≤ n && n ≤ 0x3B) || n == 0x3D || 0x3F ≤ n

def beforeFragment (cs : List Char) : List Char := cs.takeWhile (· != '#')

/-- A path and what follows its question mark; an empty path stands for `/`. -/
def pathAndQuery (cs : List Char) : Except UriError Uri :=
  let cs := beforeFragment cs
  let (path, query) := match Text.splitFirst '?' cs with
    | some (path, query) => (path, some query)
    | none => (cs, none)
  if path.all isPathChar && (query.getD []).all isQueryChar then
    .ok ⟨if path = [] then "/" else String.ofList path, query.map String.ofList⟩
  else .error .invalidCharacter

def isSchemeChar (c : Char) : Bool := c.isAlphanum || c == '+' || c == '-' || c == '.' || c == '~'

def afterScheme (cs : List Char) : Except UriError (Option (List Char)) :=
  let scheme := cs.takeWhile isSchemeChar
  match cs.drop scheme.length with
  | ':' :: '/' :: '/' :: rest =>
    if 64 < scheme.length then .error .schemeTooLong else .ok (some rest)
  | _ => .ok none

def isAuthorityChar (c : Char) : Bool :=
  c.isAlphanum || "!$&'()*+,-.:;=@[]_~%".toList.contains c

/-- What the scan of an authority remembers. -/
structure AuthorityScan where
  colons : Nat := 0
  opened : Bool := false
  closed : Bool := false
  percent : Bool := false
  afterAt : Bool := false

/-- Takes one character, if an authority can go on with it. -/
def AuthorityScan.step (s : AuthorityScan) (c : Char) : Except UriError AuthorityScan :=
  let s := { s with afterAt := false }
  if !isAuthorityChar c then .error .invalidCharacter
  else
    match c with
    | ':' => if s.colons ≥ 8 then .error .invalidAuthority else .ok { s with colons := s.colons + 1 }
    | '[' =>
      if s.percent || s.opened then .error .invalidAuthority else .ok { s with opened := true }
    | ']' =>
      if !s.opened || s.closed then .error .invalidAuthority
      else .ok { s with closed := true, colons := 0, percent := false }
    | '@' => .ok { s with colons := 0, percent := false, afterAt := true }
    | '%' => .ok { s with percent := true }
    | _ => .ok s

def endsAuthority (c : Char) : Bool := c == '/' || c == '?' || c == '#'

/-- Reads over an authority: at most one port, brackets in pairs, percent signs only in user
information or brackets. Gives its length. -/
def authority (cs : List Char) : Except UriError Nat := do
  let part := cs.takeWhile fun c => !endsAuthority c
  let s ← part.foldlM AuthorityScan.step {}
  if s.opened != s.closed || 1 < s.colons || s.afterAt || s.percent then .error .invalidAuthority
  else return part.length

def authorityForm (cs : List Char) : Except UriError Uri := do
  if (← authority cs) = cs.length then return ⟨"", none⟩
  else if cs.length = 1 then .error .invalidCharacter
  else .error .invalidFormat

def absoluteForm (cs : List Char) : Except UriError Uri := do
  match ← authority cs with
  | 0 => .error .invalidFormat
  | n => pathAndQuery (cs.drop n)

def parse (s : String) : Except UriError Uri :=
  if 65534 < s.utf8ByteSize then .error .tooLong
  else
    match s.toList with
    | [] => .error .empty
    | ['*'] => .ok ⟨"*", none⟩
    | '/' :: cs => pathAndQuery ('/' :: cs)
    | cs => do
      match ← afterScheme cs with
      | none => authorityForm cs
      | some rest => absoluteForm rest

end Uri

end ServletContainer
