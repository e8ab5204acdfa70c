import ServletContainer.Element.Builder
import ServletContainer.Files
import ServletContainer.Server.Basic

/-! Configurations: the settings of a server, and the contexts and elements declared for it. -/
namespace ServletContainer

structure ContextDecl where
  name : ContextId
  path : String
  rank : Int := 0
  init : OrdMap String String := ∅
  /-- The directory that the context's resources are read from. -/
  base : Option String := none
  session : SessionSettings := {}
  header : Option HeaderRule := none
  deriving DecidableEq

namespace ContextDecl

/-- Whether two declarations say the same; directories may be spelled differently. -/
def same (a b : ContextDecl) : Bool :=
  a.base.map Files.spelling == b.base.map Files.spelling && { a with base := b.base } = b

def sameButRank (a b : ContextDecl) : Bool := same { a with rank := b.rank } b

def helper (c : ContextDecl) : Helper := .directory c.base c.header

def build (c : ContextDecl) (n : Counters) : Except ValidationError LogicalContext × Counters :=
  let (made, n) := n.newContext c.name c.path
  (made.map fun made =>
    { made with rank := c.rank, helper := c.helper, init := c.init, session := c.session }, n)

end ContextDecl

/-- What a declaration says about an element of some kind. Collaborators are named by class. -/
inductive ElementDecl.Body where
  | servlet (className : String) (urls regexes : List String) (init : OrdMap String String)
  | filter (className : String) (urls regexes servletNames : List String) (preprocessor : Bool)
      (init : OrdMap String String)
  | listener (className : String)
  | resource (urls : List String) (folder : String)
  | welcomeFile (files : List String) (redirect : Bool)
  | errorPage (errors : List String) (location : String)
  deriving DecidableEq

def ElementDecl.Body.kind : ElementDecl.Body → ElementKind
  | .servlet .. => .servlet
  | .filter .. => .filter
  | .listener _ => .listener
  | .resource .. => .resource
  | .welcomeFile .. => .welcomeFile
  | .errorPage .. => .errorPage

structure ElementDecl where
  name : String
  contexts : List ContextId
  rank : Int
  body : ElementDecl.Body
  deriving DecidableEq

namespace ElementDecl

def kind (e : ElementDecl) : ElementKind := e.body.kind

/-- Names have to be unique only among the elements of one kind. -/
def key (e : ElementDecl) : String := e.kind.title ++ "/" ++ e.name

def builder (e : ElementDecl) (serviceId : Nat) : Builder :=
  let common : Builder :=
    { kind := e.kind, name := some e.name, targets := e.contexts, rank := e.rank, serviceId }
  match e.body with
  | .servlet c urls regexes init =>
    { common with
      source := some (.servlet (.classRef c)), urlPatterns := urls, regexPatterns := regexes, init }
  | .filter c urls regexes servletNames preprocessor init =>
    { common with
      source := some (.filter (.classRef c)), urlPatterns := urls, regexPatterns := regexes,
      servletNames, preprocessor, init }
  | .listener c => { common with source := some (.listener (.classRef c)) }
  | .resource urls folder => { common with urlPatterns := urls, folder }
  | .welcomeFile files redirect => { common with files, redirect }
  | .errorPage errors location => { common with errors, location := some location }

def build (e : ElementDecl) (serviceId : Nat) (n : Counters) :
    Except ValidationError Element × Counters :=
  (e.builder serviceId).build n

end ElementDecl

structure Config where
  server : ServerConfig := {}
  /-- The pattern of the inspection servlet; read only when the server is made. -/
  inspect : Option String := none
  contexts : List ContextDecl := []
  /-- Servlets, filters, listeners, resources, welcome files and error pages, in this order. -/
  elements : List ElementDecl := []
  deriving DecidableEq

def Config.within (directory : String) (c : Config) : Config :=
  { c with
    contexts := c.contexts.map fun x => { x with base := x.base.map (Files.join directory) } }

end ServletContainer
