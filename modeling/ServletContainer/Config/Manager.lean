import ServletContainer.Config.Declared
import ServletContainer.Config.Reader

/-! Keeping a server in line with a configuration file. The difference between the declarations that
are online and new ones is one batch; if it is rejected, what was online stays so. -/
namespace ServletContainer

/-- How a reload can fail. -/
inductive ReloadError where
  | missingFile
  | config (e : ConfigError)
  | server (e : ServerError)
  deriving DecidableEq

structure ConfigManager where
  /-- The content of the file at its last successful reload. -/
  content : Bytes := []
  online : Declared := {}
  /-- The element deployed for each declared one. -/
  elements : OrdMap String ElementId := ∅
  deriving DecidableEq

namespace ConfigManager

/-- The deployed elements whose declaration is gone or another one now. -/
def outdated (m : ConfigManager) (new : Declared) : OrdMap String ElementId :=
  m.elements.filter fun key _ => new.elements.find? key ≠ m.online.elements.find? key

def contextChange (name : ContextId) (old : ContextDecl) : Option ContextDecl → Option Change
  | none => some (.removeContext name)
  | some new =>
    if new.same old then none
    else if old.sameButRank new then some (.updateRank name new.rank)
    else some (.removeContext name)

def newContexts (m : ConfigManager) (new : Declared) : List ContextDecl :=
  (new.contexts.filter fun name c =>
    match m.online.contexts.find? name with
    | none => true
    | some old => !old.sameButRank c).values

def newElements (m : ConfigManager) (new : Declared) : List (String × ElementDecl) :=
  (new.elements.filter fun key e => m.online.elements.find? key ≠ some e).entries

def buildContexts (s : Server) :
    List ContextDecl → Except ValidationError (List LogicalContext) × Server
  | [] => (.ok [], s)
  | c :: cs =>
    match c.build s.counters with
    | (.error e, counters) => (.error e, { s with counters })
    | (.ok made, counters) =>
      let (rest, s) := buildContexts { s with counters } cs
      (rest.map (made :: ·), s)

def buildElements (s : Server) :
    List (String × ElementDecl) → Except ValidationError (List (String × Element)) × Server
  | [] => (.ok [], s)
  | (key, e) :: es =>
    let (serviceId, s) := s.takeService
    match e.build serviceId s.counters with
    | (.error err, counters) => (.error err, { s with counters })
    | (.ok made, counters) =>
      let (rest, s) := buildElements { s with counters } es
      (rest.map ((key, made) :: ·), s)

def removals (m : ConfigManager) (new : Declared) : List Change :=
  (m.outdated new).values.map .removeElement ++
    m.online.contexts.entries.filterMap fun (name, old) =>
      contextChange name old (new.contexts.find? name)

def diff (m : ConfigManager) (s : Server) (new : Declared) :
    Except ValidationError (List Change × List (String × Element)) × Server :=
  match buildContexts s (m.newContexts new) with
  | (.error e, s) => (.error e, s)
  | (.ok contexts, s) =>
    match buildElements s (m.newElements new) with
    | (.error e, s) => (.error e, s)
    | (.ok elements, s) =>
      (.ok (m.removals new ++ contexts.map .addContext ++ elements.map fun e => .addElement e.2,
        elements), s)

def adopt (m : ConfigManager) (new : Declared) (added : List (String × Element)) : ConfigManager :=
  let kept := m.elements.filter fun key _ => new.elements.find? key = m.online.elements.find? key
  { m with
    online := new
    elements := added.foldl (fun es e => es.insert e.1 e.2.id) kept }

def apply (m : ConfigManager) (s : Server) (new : Declared) :
    Except ServerError (Option Report) × ConfigManager × Server :=
  match m.diff s new with
  | (.error e, s) => (.error (.validation e), m, s)
  | (.ok (changes, added), s) =>
    if changes.isEmpty then (.ok none, { m with online := new }, s)
    else
      match s.submit ⟨"config reload", changes⟩ with
      | (.ok report, s) => (.ok (some report), m.adopt new added, s)
      | (.error e, s) => (.error (.batch e), m, s)

def load (m : ConfigManager) (s : Server) (content : Bytes) :
    Except ReloadError (Option Report) × ConfigManager × Server :=
  match Config.parse content with
  | .error e => (.error (.config e), m, s)
  | .ok config =>
    match config.declared s.counters with
    | (.error e, counters) => (.error (.config e), m, { s with counters })
    | (.ok declared, counters) =>
      let (r, m, s) := m.apply { s with counters } declared
      (r.mapError .server, m, s)

/-- Loads the file if its content is another than at the last successful reload; says whether it
is. -/
def reload (m : ConfigManager) (s : Server) (content : Option Bytes) :
    Except ReloadError Bool × ConfigManager × Server :=
  match content with
  | none => (.error .missingFile, m, s)
  | some content =>
    if content = m.content then (.ok false, m, s)
    else
      match m.load s content with
      | (.ok _, m, s) => (.ok true, { m with content }, s)
      | (.error e, m, s) => (.error e, m, s)

end ConfigManager

end ServletContainer
