import ServletContainer.Element.Source
import ServletContainer.Pattern

/-! Web elements: what can be registered in contexts, and the order in which competing elements are
preferred. -/
namespace ServletContainer

open Text

inductive ElementKind where
  | servlet
  | filter
  | listener
  | resource
  | errorPage
  | welcomeFile
  deriving DecidableEq

def ElementKind.title : ElementKind → String
  | .servlet => "servlet"
  | .filter => "filter"
  | .listener => "listener"
  | .resource => "resource"
  | .errorPage => "error page"
  | .welcomeFile => "welcome file"

def ElementKind.slug : ElementKind → String
  | .errorPage => "error_page"
  | .welcomeFile => "welcome_file"
  | k => k.title

/-- What an error page answers. -/
inductive ErrorKey where
  | code (n : Nat)
  | clientErrors
  | serverErrors
  | exception (kind : String)
  deriving DecidableEq

namespace ErrorKey

/-- A status code: digits, perhaps after a plus sign, at most 65535. -/
def code? (cs : List Char) : Option Nat :=
  let ds := match cs with
    | '+' :: ds => ds
    | ds => ds
  if ds.isEmpty || !ds.all Char.isDigit then none
  else
    let n := ds.foldl (fun n c => n * 10 + (c.toNat - '0'.toNat)) 0
    if n ≤ 65535 then some n else none

/-- Reads an error key; a blank text is none. -/
def parse? (s : String) : Option ErrorKey :=
  match String.ofList (trimChars s.toList) with
  | "" => none
  | "4xx" => some .clientErrors
  | "5xx" => some .serverErrors
  | t =>
    match code? t.toList with
    | some n => some (.code n)
    | none => some (.exception t)

def text : ErrorKey → String
  | .code n => toString n
  | .clientErrors => "4xx"
  | .serverErrors => "5xx"
  | .exception kind => kind

/-- How specifically the key matches a status: an exact code beats a class of codes. -/
def statusMatch (k : ErrorKey) (status : Nat) : Option Nat :=
  match k with
  | .code n => if n = status then some 2 else none
  | .clientErrors => if 400 ≤ status ∧ status ≤ 499 then some 1 else none
  | .serverErrors => if 500 ≤ status ∧ status ≤ 599 then some 1 else none
  | .exception _ => none

end ErrorKey

/-- The part of an element that depends on its kind. -/
inductive Details where
  | servlet (source : Source Servlet)
  /-- A preprocessor runs for every request, before security. -/
  | filter (source : Source Filter) (servletNames : List String) (preprocessor : Bool)
  | listener (source : Source Listener)
  /-- Files below `folder` in the context's resources. -/
  | resource (folder : String)
  | errorPage (errors : List ErrorKey) (location : String)
  | welcomeFile (files : List String) (redirect : Bool)
  deriving DecidableEq

def Details.kind : Details → ElementKind
  | .servlet _ => .servlet
  | .filter .. => .filter
  | .listener _ => .listener
  | .resource _ => .resource
  | .errorPage .. => .errorPage
  | .welcomeFile .. => .welcomeFile

structure Element where
  id : ElementId
  /-- Which copy of the element this is; the one that was built has number 0. Elements are the same
  object exactly if they are equal, their copy number included. -/
  copy : Nat := 0
  name : String
  patterns : Patterns
  targets : List ContextId
  rank : Int
  serviceId : Nat
  dynamic : Bool
  owner : Option Module
  init : OrdMap String String
  details : Details
  deriving DecidableEq

/-- What decides between competing elements. -/
structure TieBreak where
  dynamic : Bool
  rank : Int
  serviceId : Nat
  id : ElementId
  deriving DecidableEq

/-- Dynamic elements come first, then higher rank, then lower service number, then lower number. -/
def TieBreak.lt (a b : TieBreak) : Bool :=
  (a.dynamic && !b.dynamic) ||
    (a.dynamic == b.dynamic &&
      (b.rank < a.rank ||
        (a.rank == b.rank &&
          (a.serviceId < b.serviceId || (a.serviceId == b.serviceId && a.id < b.id)))))

namespace Element

def kind (e : Element) : ElementKind := e.details.kind

def tieBreak (e : Element) : TieBreak := ⟨e.dynamic, e.rank, e.serviceId, e.id⟩

def precedes (a b : Element) : Bool := !b.tieBreak.lt a.tieBreak

def inOrder (es : List Element) : List Element := sortBy precedes es

def label (e : Element) : String :=
  e.kind.title ++ " " ++ quoted e.name ++ " " ++ ElementId.label e.id

def matchPath (e : Element) (path : String) : Option PatternMatch := e.patterns.bestMatch path

def isPreprocessor (e : Element) : Bool :=
  match e.details with
  | .filter _ _ p => p
  | _ => false

def className (e : Element) : Option String :=
  match e.details with
  | .servlet s => s.className
  | .filter s _ _ => s.className
  | .listener s => s.className
  | _ => none

def addTarget (ts : List ContextId) (t : ContextId) : List ContextId :=
  if ts.contains t then ts else ts ++ [t]

def distinct (ts : List ContextId) : List ContextId := ts.foldl addTarget []

/-- The same element bound to other contexts, as copy number `copy`. -/
def withTargets (e : Element) (targets : List ContextId) (copy : Nat) : Element :=
  { e with targets := distinct targets, copy := copy }

end Element

end ServletContainer
