import ServletContainer.Deployment.Basic

/-! The routing table: what is enabled in each mount, ready for requests. A request path selects the
mount with the longest path that contains it. -/
namespace ServletContainer

/-- An enabled servlet or resource and the context it is served under. -/
structure ActiveServlet where
  element : Element
  context : Option LogicalContext
  deriving DecidableEq

/-- The enabled elements of one mount, each list best first. -/
structure Mount where
  path : ContextPath
  /-- The bound contexts, highest priority first. -/
  contexts : List LogicalContext
  servlets : List ActiveServlet
  /-- Filters other than preprocessors. -/
  filters : List Element
  errorPages : List Element
  welcomeFiles : List Element
  deriving DecidableEq

/-- Mounts, longest path first, and the preprocessors of all of them. -/
structure Table where
  mounts : List Mount := []
  preprocessors : List Element := []
  deriving DecidableEq

namespace Mount

def top (m : Mount) : Option LogicalContext := m.contexts.head?

/-- The better of the matches found so far and a further one; an earlier element keeps its place
unless the match is strictly more specific. -/
def prefer (path : String) (best : Option (ActiveServlet × PatternMatch)) (s : ActiveServlet) :
    Option (ActiveServlet × PatternMatch) :=
  match s.element.matchPath path, best with
  | none, _ => best
  | some m, none => some (s, m)
  | some m, some (b, bm) => if bm.kind.lt m.kind then some (s, m) else some (b, bm)

def select (m : Mount) (path : String) : Option (ActiveServlet × PatternMatch) :=
  m.servlets.foldl (prefer path) none

/-- How specifically an error key answers an error. -/
def score (kind : Option String) (status : Nat) (k : ErrorKey) : Option Nat :=
  match k, kind with
  | .exception e, some found => if e = found then some 3 else none
  | k, _ => k.statusMatch status

def errorKeys (m : Mount) : List (ErrorKey × String) :=
  m.errorPages.flatMap fun e =>
    match e.details with
    | .errorPage keys location => keys.map (·, location)
    | _ => []

def preferPage (kind : Option String) (status : Nat) (best : Option (Nat × String))
    (k : ErrorKey × String) : Option (Nat × String) :=
  match score kind status k.1, best with
  | none, _ => best
  | some n, none => some (n, k.2)
  | some n, some (b, l) => if b < n then some (n, k.2) else some (b, l)

/-- The location of the error page for an error kind or a status: the kind counts before the code,
the code before its class. -/
def errorPage (m : Mount) (kind : Option String) (status : Nat) : Option String :=
  (m.errorKeys.foldl (preferPage kind status) none).map (·.2)

end Mount

namespace Deployment

def listedAt (d : Deployment) (path : ContextPath) : List Element :=
  (d.enabledAt path).filter fun e => !e.isPreprocessor

def mountAt (d : Deployment) (path : ContextPath) : Mount :=
  let es := d.listedAt path
  { path
    contexts := d.contexts.boundAt path
    servlets := (es.filter fun e => e.kind = .servlet ∨ e.kind = .resource).map fun e =>
      ⟨e, d.contextFor e path⟩
    filters := es.filter (·.kind = .filter)
    errorPages := es.filter (·.kind = .errorPage)
    welcomeFiles := es.filter (·.kind = .welcomeFile) }

def preprocessors (d : Deployment) : List Element :=
  Element.inOrder <| d.elementList.filter fun e => e.isPreprocessor && d.isEnabled e.id

def table (d : Deployment) : Table :=
  let paths := sortBy (fun p q => q.text.utf8ByteSize ≤ p.text.utf8ByteSize) d.contexts.paths
  ⟨paths.map d.mountAt, d.preprocessors⟩

end Deployment

/-- The mount that serves a request path: of those that contain it, the one with the longest
path. -/
def Table.select (t : Table) (path : String) : Option Mount :=
  t.mounts.find? fun m => (ContextPath.below m.path.text path).isSome

end ServletContainer
