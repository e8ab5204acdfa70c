import ServletContainer.Counters
import ServletContainer.Element.Basic

/-! Building elements from their settings, with every check that needs no server. -/
namespace ServletContainer

open Text

/-- A source for one of the three kinds of collaborator. -/
inductive AnySource where
  | servlet (s : Source Servlet)
  | filter (s : Source Filter)
  | listener (s : Source Listener)
  deriving DecidableEq

/-- The settings of an element to build. -/
structure Builder where
  kind : ElementKind
  name : Option String := none
  source : Option AnySource := none
  urlPatterns : List String := []
  regexPatterns : List String := []
  targets : List ContextId := []
  rank : Int := 0
  serviceId : Nat := 0
  dynamic : Bool := false
  owner : Option Module := none
  init : OrdMap String String := ∅
  servletNames : List String := []
  preprocessor : Bool := false
  folder : String := ""
  errors : List String := []
  location : Option String := none
  files : List String := []
  redirect : Bool := false

namespace Builder

def checkedName (b : Builder) : Except ValidationError String :=
  match b.name with
  | some n => if trimChars n.toList = [] then .error .missingName else .ok n
  | none => .error .missingName

def checkedPatterns (b : Builder) (name : String) : Except ValidationError Patterns :=
  if !b.urlPatterns.isEmpty && !b.regexPatterns.isEmpty then
    .error (.conflictingPatternTypes name)
  else if b.regexPatterns.isEmpty then Patterns.parseUrls name b.urlPatterns
  else Patterns.parseRegexes name b.regexPatterns

def checkedErrors (b : Builder) (name : String) : Except ValidationError (List ErrorKey) :=
  match b.errors.mapM ErrorKey.parse? with
  | some keys => .ok keys
  | none => .error (.emptyErrorPage name)

/-- The file names of a welcome file, without leading slashes; empty ones are dropped. -/
def fileNames (b : Builder) : List String :=
  ((b.files.map fun f => dropStart (· == '/') f.toList).filter (· ≠ [])).map String.ofList

def checkedDetails (b : Builder) (name : String) (patterns : Patterns) :
    Except ValidationError Details :=
  let mismatch := .error (.sourceKindMismatch name b.kind.title)
  let missing := .error (.missingSource name)
  match b.kind, b.source with
  | .servlet, some (.servlet s) => .ok (.servlet s)
  | .servlet, some _ => mismatch
  | .servlet, none => missing
  | .filter, some (.filter s) =>
    if patterns.isEmpty && b.servletNames.isEmpty && !b.preprocessor then
      .error (.missingMapping name)
    else .ok (.filter s b.servletNames b.preprocessor)
  | .filter, some _ => mismatch
  | .filter, none => missing
  | .listener, some (.listener s) => .ok (.listener s)
  | .listener, some _ => mismatch
  | .listener, none => missing
  | .resource, some _ => mismatch
  | .resource, none => .ok (.resource (String.ofList (dropEnd (· == '/') b.folder.toList)))
  | .errorPage, _ =>
    match b.location with
    | none => .error (.emptyErrorPage name)
    | some location =>
      if b.errors.isEmpty then .error (.emptyErrorPage name)
      else (b.checkedErrors name).map fun keys => .errorPage keys location
  | .welcomeFile, _ => .ok (.welcomeFile b.fileNames b.redirect)

def element (b : Builder) (id : ElementId) : Except ValidationError Element := do
  let name ← b.checkedName
  let patterns ← b.checkedPatterns name
  let details ← b.checkedDetails name patterns
  return {
    id, name, patterns, details
    targets := Element.distinct b.targets
    rank := b.rank
    serviceId := b.serviceId
    dynamic := b.dynamic
    owner := b.owner
    init := b.init }

end Builder

def Builder.build (b : Builder) (n : Counters) : Except ValidationError Element × Counters :=
  match b.element n.element with
  | .ok e => (.ok e, { n with element := n.element + 1 })
  | .error e => (.error e, n)

end ServletContainer
