import ServletContainer.Context.Helper
import ServletContainer.Dispatch.Collaborator
import ServletContainer.Dispatch.Table
import ServletContainer.Json.Basic

/-! What a request runs through: the mount that contains its path, the servlet or welcome file there,
the context whose security applies, and the filters in scope. -/
namespace ServletContainer

inductive Target where
  | servlet (s : ActiveServlet) (m : PatternMatch)
  /-- A welcome file that is served by redirection. -/
  | redirect (location : String)
  | nothing
  deriving DecidableEq

structure Plan where
  mount : Mount
  /-- The request path below the mount. -/
  relative : String
  view : Option LogicalContext
  target : Target
  filters : List Element
  preprocessors : List Element
  deriving DecidableEq

namespace Mount

/-- Whether a match can stand for a welcome file: a resource must find the file, anything else must
be mapped to it exactly or by extension. -/
def isUsable (fs : Files) (s : ActiveServlet) (m : PatternMatch) : Bool :=
  match s.element.details with
  | .resource folder =>
    match s.context with
    | some c =>
      (c.helper.resource fs s.element.owner
        (Resource.nameOf folder m.servletPath m.pathInfo)).isSome
    | none => false
  | _ => m.kind == .exact || m.kind == .extension

def welcomeNames (m : Mount) : List (String × Bool) :=
  m.welcomeFiles.flatMap fun e =>
    match e.details with
    | .welcomeFile files redirect => files.map (·, redirect)
    | _ => []

/-- The target that a welcome file gives for a directory, if it can be used. -/
def welcomeFor (fs : Files) (m : Mount) (directory : String) (name : String × Bool) :
    Option Target :=
  let candidate := directory ++ name.1
  match m.select candidate with
  | none => none
  | some (s, pm) =>
    if isUsable fs s pm then
      some (if name.2 then .redirect (m.path.lead ++ candidate) else .servlet s pm)
    else none

def welcome (fs : Files) (m : Mount) (relative : String) : Option Target :=
  let directory := if relative.toList.getLast? = some '/' then relative else relative ++ "/"
  m.welcomeNames.findSome? (m.welcomeFor fs directory)

/-- What answers a path below the mount. A directory is answered by a welcome file, unless it is
matched exactly or by extension. -/
def target (fs : Files) (m : Mount) (relative : String) : Target :=
  let found := m.select relative
  let direct : Target := match found with
    | some (s, pm) => .servlet s pm
    | none => .nothing
  let isDirectory := relative = "" ∨ relative.toList.getLast? = some '/'
  let isPrecise := match found with
    | some (_, pm) => pm.kind == .exact || pm.kind == .extension
    | none => false
  if isDirectory ∧ !isPrecise then (m.welcome fs relative).getD direct else direct

end Mount

def Target.active : Target → Option ActiveServlet
  | .servlet s _ => some s
  | _ => none

namespace Plan

/-- A filter belongs to the contexts that it targets, and without targets to the mount's context of
highest priority. -/
def inScope (m : Mount) (view : Option LogicalContext) (f : Element) : Bool :=
  match view with
  | none => false
  | some v =>
    if f.targets.isEmpty then
      match m.top with
      | some t => t.id == v.id
      | none => false
    else f.targets.contains v.id

/-- A filter is mapped to paths and to servlets by name. -/
def applies (relative : String) (servletName : Option String) (f : Element) : Bool :=
  (f.matchPath relative).isSome ||
    match f.details, servletName with
    | .filter _ names _, some n => names.contains n
    | _, _ => false

def inMount (fs : Files) (t : Table) (m : Mount) (relative : String) : Plan :=
  let target := m.target fs relative
  let view := match target.active.bind (·.context) with
    | some c => some c
    | none => m.top
  let servletName := target.active.map (·.element.name)
  { mount := m
    relative, view, target
    filters := (m.filters.filter (inScope m view)).filter (applies relative servletName)
    preprocessors := t.preprocessors }

/-- Neither a servlet nor a redirection nor a filter. -/
def isEmpty (p : Plan) : Bool := p.target == .nothing && p.filters.isEmpty

end Plan

def Table.compose (t : Table) (fs : Files) (path : String) : Option Plan :=
  match t.select path with
  | none => none
  | some m => (ContextPath.below m.path.text path).map (Plan.inMount fs t m)

open Json (nat)

def MatchKind.json : MatchKind → Json
  | .fallback => .str "default"
  | .regex => .str "regex"
  | .extension => .str "extension"
  | .subtree n => .obj [("prefix", nat n)]
  | .exact => .str "exact"

def Element.brief (e : Element) : Json :=
  .obj [("id", nat e.id), ("kind", .str e.kind.slug), ("name", .str e.name), ("rank", .int e.rank),
    ("service_id", nat e.serviceId)]

def Plan.json (p : Option Plan) (path : String) : Json :=
  let get := fun (f : Plan → Json) => (p.map f).getD .null
  let matched := p.bind fun p => match p.target with
    | .servlet _ m => some m
    | _ => none
  let redirect := p.bind fun p => match p.target with
    | .redirect l => some l
    | _ => none
  let briefs := fun (es : List Element) => Json.arr (es.map Element.brief)
  .obj [("path", .str path), ("mount", get fun p => .str p.mount.path.text),
    ("context", get fun p => Json.optStr (p.view.map (·.id))),
    ("servlet", get fun p => Json.option (fun s => s.element.brief) p.target.active),
    ("match_kind", Json.option MatchKind.json (matched.map (·.kind))),
    ("servlet_path", Json.optStr (matched.map (·.servletPath))),
    ("path_info", Json.optStr (matched.bind (·.pathInfo))), ("redirect", Json.optStr redirect),
    ("filters", briefs ((p.map (·.filters)).getD [])),
    ("preprocessors", briefs ((p.map (·.preprocessors)).getD []))]

def Table.info (t : Table) (fs : Files) (path : String) : Json := Plan.json (t.compose fs path) path

end ServletContainer
