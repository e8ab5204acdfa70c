import ServletContainer.Builtin
import ServletContainer.Cli.Arguments
import ServletContainer.Config.Manager
import ServletContainer.Http.Status
import ServletContainer.Server.Service

/-! What the commands do: a server is made and started from a configuration, its declarations are
brought online, and the command prints what it finds. -/
namespace ServletContainer.Cli

inductive Failure where
  | config (e : ConfigError)
  | server (e : ServerError)
  | target (e : UriError)
  deriving DecidableEq

namespace Failure

def message : Failure → String
  | .config e => e.message
  | .server e => e.message
  | .target e => e.message

def cause : Failure → Option String
  | .config (.invalid e) => some e.message
  | .server (.batch (.validation _ _ _ e)) => some e.message
  | .server (.batch (.engine _ e)) => some e.message
  | _ => none

def indent (s : String) : String :=
  "\n".intercalate ((Text.splitAll '\n' s.toList).map fun l => "    " ++ String.ofList l)

def report (f : Failure) : String :=
  let because := match f.cause with
    | some c => "\n\nCaused by:\n" ++ indent c
    | none => ""
  "Error: " ++ f.message ++ because ++ "\n"

end Failure

/-- What a run prints, and whether it failed. -/
structure Result where
  out : String := ""
  failure : Option Failure := none
  deriving DecidableEq

def readConfig (content : Option Bytes) : Except Failure Config :=
  match content with
  | none => .error (.config .io)
  | some content => (Config.parse content).mapError .config

def inspector (pattern : String) (serviceId : Nat) : Builder :=
  { kind := .servlet, name := some "inspect", source := some (.servlet (.given .inspect)),
    urlPatterns := [pattern], serviceId }

def deployInspector (s : Server) (pattern : String) : Except Failure Server :=
  let (serviceId, s) := s.takeService
  match (inspector pattern serviceId).build s.counters with
  | (.error e, _) => .error (.server (.validation e))
  | (.ok e, counters) =>
    match { s with counters }.submit ⟨"inspect", [.addElement e]⟩ with
    | (.error e, _) => .error (.server (.batch e))
    | (.ok _, s) => .ok s

def startServer (c : Config) : Except Failure Server :=
  match (Server.new c.server (.inProcess {}) (Pool.withBuiltins {})).start with
  | (.error e, _) => .error (.server e)
  | (.ok _, s) =>
    match c.inspect with
    | none => .ok s
    | some pattern => deployInspector s pattern

def applyConfig (c : Config) (s : Server) : Except Failure Server :=
  match c.declared s.counters with
  | (.error e, _) => .error (.config e)
  | (.ok declared, counters) =>
    match ConfigManager.apply {} { s with counters } declared with
    | (.error e, _, _) => .error (.server e)
    | (.ok _, _, s) => .ok s

def responseText (r : Response) : String :=
  let header := fun (h : String × Bytes) => h.1 ++ ": " ++ Utf8.decodeLossy h.2 ++ "\n"
  "HTTP/1.1 " ++ Status.text r.status ++ "\n" ++ String.join (r.headers.map header) ++ "\n" ++
    Utf8.decodeLossy r.body ++ "\n"

def perform (s : Server) (fs : Files) : Command → Except Failure (String × Server)
  | .check => .ok (s.deployment.snapshot.pretty ++ "\n", s)
  | .route paths =>
    .ok (String.join (paths.map fun p => (s.table.info fs p).pretty ++ "\n"), s)
  | .request uri method =>
    match Uri.parse uri with
    | .error e => .error (.target e)
    | .ok uri =>
      let (response, _, s) := s.answer fs { method, uri }
      .ok (responseText response, s)

def serve (command : Command) (config : Except Failure Config) (fs : Files) :
    Except Failure (String × Server) := do
  let config ← config
  let s ← startServer config
  let s ← applyConfig config s
  perform s fs command

def run (command : Command) (config : Except Failure Config) (fs : Files) : Result :=
  match serve command config fs with
  | .error f => { failure := some f }
  | .ok (out, s) =>
    match s.stop.1 with
    | .ok _ => { out }
    | .error e => { out, failure := some (.server e) }

end ServletContainer.Cli
