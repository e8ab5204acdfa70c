import ServletContainer.Element.Builder
import ServletContainer.Server.Basic

/-! Registration of servlets and resources under aliases. Such elements are dynamic, so they come
before all others that compete for the same name or pattern. -/
namespace ServletContainer

open Text

/-- What is served under an alias. -/
inductive AliasTarget where
  | servlet (s : Servlet) (init : OrdMap String String)
  /-- The context's resources below a folder. -/
  | resources (folder : String)
  deriving DecidableEq

/-- Who registered an alias, and the element that serves it. -/
structure Alias where
  owner : Module
  element : ElementId
  deriving DecidableEq

/-- The aliases of a server. -/
structure Aliases where
  entries : OrdMap String Alias := ∅
  deriving DecidableEq

namespace Aliases

/-- An alias is the root, or it starts but does not end with a slash; it holds no star. -/
def isValid (a : String) : Bool :=
  let cs := a.toList
  (cs == ['/'] || (cs.head? == some '/' && cs.getLast? != some '/')) && !cs.contains '*'

/-- An alias covers itself and what lies below it. -/
def patternsOf (a : String) : List String := if a = "/" then ["/*"] else [a, a ++ "/*"]

def builder (owner : Module) (a : String) (target : AliasTarget) (context : Option ContextId)
    (serviceId : Nat) : Builder :=
  let common : Builder :=
    { kind := .resource, name := some a, urlPatterns := patternsOf a, targets := context.toList,
      dynamic := true, serviceId, owner := some owner }
  match target with
  | .servlet s init =>
    { common with kind := .servlet, source := some (.servlet (.given s)), init }
  | .resources folder => { common with folder }

def deploy (s : Server) (b : Builder) (label : String) : Except ServerError ElementId × Server :=
  match b.build s.counters with
  | (.error e, counters) => (.error (.validation e), { s with counters })
  | (.ok e, counters) =>
    match { s with counters }.submit ⟨label, [.addElement e]⟩ with
    | (.ok _, s) => (.ok e.id, s)
    | (.error err, s) => (.error (.batch err), s)

def register (as : Aliases) (s : Server) (owner : Module) (a : String) (target : AliasTarget)
    (context : Option ContextId) : Except ServerError ElementId × Aliases × Server :=
  if !isValid a then (.error (.validation (.invalidPattern a)), as, s)
  else if as.entries.contains a then (.error (.validation (.aliasInUse a)), as, s)
  else
    let (serviceId, s) := s.takeService
    match deploy s (builder owner a target context serviceId) ("register alias " ++ a) with
    | (.ok id, s) => (.ok id, ⟨as.entries.insert a ⟨owner, id⟩⟩, s)
    | (.error e, s) => (.error e, as, s)

def unregister (as : Aliases) (s : Server) (owner : Module) (a : String) :
    Except ServerError Unit × Aliases × Server :=
  match (as.entries.find? a).filter (·.owner = owner) with
  | none => (.error (.validation (.unknownAlias a)), as, s)
  | some found =>
    match s.submit ⟨"unregister alias " ++ a, [.removeElement found.element]⟩ with
    | (.ok _, s) => (.ok (), ⟨as.entries.erase a⟩, s)
    | (.error e, s) => (.error (.batch e), as, s)

def unregisterAll (as : Aliases) (s : Server) (owner : Module) :
    Except ServerError Unit × Aliases × Server :=
  let owned := (as.entries.filter fun _ x => x.owner = owner).values.map (·.element)
  if owned.isEmpty then (.ok (), as, s)
  else
    match s.submit ⟨"unregister aliases of " ++ owner.label, owned.map .removeElement⟩ with
    | (.ok _, s) => (.ok (), ⟨as.entries.filter fun _ x => x.owner ≠ owner⟩, s)
    | (.error e, s) => (.error (.batch e), as, s)

def names (as : Aliases) : List String := as.entries.keys

end Aliases

end ServletContainer
