import ServletContainer.Engine.InProcess

/-! The engines that a server can run on: one that accepts everything, one that notes the calls it
gets and can be told to refuse one of them, and the in-process engine. -/
namespace ServletContainer

inductive EngineCall where
  | configure
  | start
  | stop
  | apply
  deriving DecidableEq

/-- Notes its calls, and refuses the call named by `refused`. -/
structure Recording where
  refused : Option EngineCall := none
  calls : List String := []
  deriving DecidableEq

inductive Engine where
  | idle
  | recording (r : Recording)
  | inProcess (s : InProcess)
  deriving DecidableEq

namespace Recording

def call (r : Recording) (c : EngineCall) (text effect : String) : Except EngineError Recording :=
  if r.refused = some c then .error ⟨"recording", effect, "rejected on purpose"⟩
  else .ok { r with calls := r.calls ++ [text] }

end Recording

namespace Engine

def name : Engine → String
  | .idle => "null"
  | .recording _ => "recording"
  | .inProcess _ => InProcess.engineName

def configure (settings : EngineSettings) : Engine → Except EngineError Engine
  | .idle => .ok .idle
  | .recording r =>
    let effect := settings.name ++ " " ++ Text.quotedEntries settings.properties.entries
    (r.call .configure "engine configure" effect).map .recording
  | .inProcess s => (s.configure settings).map .inProcess

def start : Engine → Except EngineError Engine
  | .idle => .ok .idle
  | .recording r => (r.call .start "engine start" "start").map .recording
  | .inProcess s => .ok (.inProcess s.start)

def stop : Engine → Except EngineError Engine
  | .idle => .ok .idle
  | .recording r => (r.call .stop "engine stop" "stop").map .recording
  | .inProcess s => .ok (.inProcess s.stop)

/-- Hands effects to the engine; it does all of them or none. -/
def apply (pool : Pool) (fs : List Effect) : Engine → Except EngineError Engine × Pool
  | .idle => (.ok .idle, pool)
  | .recording r =>
    let effect := (fs.head?.map Effect.label).getD ""
    ((r.call .apply "engine apply" effect).map .recording, pool)
  | .inProcess s =>
    let (result, pool) := s.apply pool fs
    (result.map .inProcess, pool)

def committed : Engine → List Notice × Engine
  | .idle => ([], .idle)
  | .recording r => ([], .recording { r with calls := r.calls ++ ["engine committed"] })
  | .inProcess s =>
    let (notices, s) := s.committed
    (notices, .inProcess s)

end Engine

end ServletContainer
