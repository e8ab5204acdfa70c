import ServletContainer.Path
import ServletContainer.Regex.Parser

/-! Mappings of elements to paths below a mount: url patterns of four shapes, and regular
expressions. Of several url patterns that match a path, the most specific kind of match counts. -/
namespace ServletContainer

open Text

inductive UrlPattern where
  /-- This path alone; the empty text stands for the mount itself. -/
  | exact (path : String)
  /-- `top/*`: the path `top` and all below it. -/
  | subtree (top : String)
  /-- `*.ext`: paths whose last segment has this extension. -/
  | extension (ext : String)
  /-- `/`: every path. -/
  | fallback
  deriving DecidableEq

/-- How a path was matched. -/
inductive MatchKind where
  | fallback
  | regex
  | extension
  /-- By a subtree pattern whose top takes so many octets. -/
  | subtree (length : Nat)
  | exact
  deriving DecidableEq

/-- The specificity of a match: its class, then the length of what was matched. -/
def MatchKind.weight : MatchKind → Nat × Nat
  | .fallback => (0, 0)
  | .regex => (1, 0)
  | .extension => (2, 0)
  | .subtree n => (3, n)
  | .exact => (4, 0)

def MatchKind.lt (a b : MatchKind) : Bool :=
  a.weight.1 < b.weight.1 || (a.weight.1 == b.weight.1 && a.weight.2 < b.weight.2)

/-- A match: its kind, the part of the path that chose the element, and what follows it. -/
structure PatternMatch where
  kind : MatchKind
  servletPath : String
  pathInfo : Option String
  deriving DecidableEq

namespace UrlPattern

def parseChars (cs : List Char) : Option UrlPattern :=
  if cs = [] then some (.exact "")
  else if cs = ['/'] then some .fallback
  else
    match cutStart ['*', '.'] cs with
    | some ext =>
      if ext = [] || ext.contains '/' || ext.contains '*' then none
      else some (.extension (String.ofList ext))
    | none =>
      if cs.head? ≠ some '/' then none
      else
        match cutEnd ['/', '*'] cs with
        | some top => if top.contains '*' then none else some (.subtree (String.ofList top))
        | none => if cs.contains '*' then none else some (.exact (String.ofList cs))

def parse (s : String) : Except ValidationError UrlPattern :=
  match parseChars s.toList with
  | some p => .ok p
  | none => .error (.invalidPattern s)

def text : UrlPattern → String
  | .exact path => path
  | .subtree top => top ++ "/*"
  | .extension ext => "*." ++ ext
  | .fallback => "/"

def matches? (p : UrlPattern) (path : String) : Option PatternMatch :=
  match p with
  | .exact "" => if path = "" ∨ path = "/" then some ⟨.exact, "", some "/"⟩ else none
  | .exact e => if path = e then some ⟨.exact, e, none⟩ else none
  | .subtree top =>
    match cutStart top.toList path.toList with
    | none => none
    | some [] => some ⟨.subtree top.utf8ByteSize, top, none⟩
    | some (c :: rest) =>
      if c = '/' then some ⟨.subtree top.utf8ByteSize, top, some (String.ofList (c :: rest))⟩
      else none
  | .extension ext =>
    match splitLast '.' (afterLast '/' path.toList) with
    | some (_, found) => if found = ext.toList then some ⟨.extension, path, none⟩ else none
    | none => none
  | .fallback => some ⟨.fallback, path, none⟩

end UrlPattern

/-- A regular expression with its text, by which it is known. -/
structure RegexPattern where
  text : String
  expr : Regex.Expr
  deriving DecidableEq

def RegexPattern.parse (s : String) : Except ValidationError RegexPattern :=
  match Regex.parse? s with
  | some e => .ok ⟨s, e⟩
  | none => .error (.invalidRegex s)

/-- The mapping of an element: url patterns or regular expressions, not both. -/
inductive Patterns where
  | unmapped
  | urls (ps : List UrlPattern)
  | regexes (rs : List RegexPattern)
  deriving DecidableEq

namespace Patterns

def readUrls (name : String) (done : List UrlPattern) :
    List String → Except ValidationError (List UrlPattern)
  | [] => .ok done
  | s :: rest =>
    match UrlPattern.parse s with
    | .error e => .error e
    | .ok p =>
      if done.contains p then .error (.duplicatePattern name p.text)
      else readUrls name (done ++ [p]) rest

def parseUrls (name : String) (texts : List String) : Except ValidationError Patterns :=
  match readUrls name [] texts with
  | .error e => .error e
  | .ok [] => .ok .unmapped
  | .ok ps => .ok (.urls ps)

def readRegexes (name : String) (done : List RegexPattern) :
    List String → Except ValidationError (List RegexPattern)
  | [] => .ok done
  | s :: rest =>
    if done.any fun r => r.text == s then .error (.duplicatePattern name s)
    else
      match RegexPattern.parse s with
      | .error e => .error e
      | .ok r => readRegexes name (done ++ [r]) rest

def parseRegexes (name : String) (texts : List String) : Except ValidationError Patterns :=
  match readRegexes name [] texts with
  | .error e => .error e
  | .ok [] => .ok .unmapped
  | .ok rs => .ok (.regexes rs)

def isEmpty : Patterns → Bool
  | .unmapped => true
  | _ => false

def urlPatterns : Patterns → List UrlPattern
  | .urls ps => ps
  | _ => []

/-- The most specific of two matches, the later one of equals. -/
def better (best : Option PatternMatch) (m : PatternMatch) : Option PatternMatch :=
  match best with
  | some b => if m.kind.lt b.kind then some b else some m
  | none => some m

def bestMatch (ps : Patterns) (path : String) : Option PatternMatch :=
  match ps with
  | .unmapped => none
  | .urls us => (us.filterMap (·.matches? path)).foldl better none
  | .regexes rs =>
    if rs.any fun r => r.expr.occursIn path.toList then some ⟨.regex, path, none⟩ else none

def texts : Patterns → List String
  | .unmapped => []
  | .urls us => us.map UrlPattern.text
  | .regexes rs => rs.map (·.text)

end Patterns

end ServletContainer
