import ServletContainer.Counters
import ServletContainer.Deployment.Effect
import ServletContainer.Engine.Basic

/-! A server: a deployment together with the engine that serves it. Every change of the deployment
is a batch, which is committed as a whole or not at all. -/
namespace ServletContainer

structure ServerConfig where
  arbitration : Policy := .strict
  /-- The context of elements without targets. -/
  defaultContext : ContextId := "default"
  defaultContextPath : String := "/"
  engine : EngineSettings := {}
  deriving DecidableEq

structure Server where
  config : ServerConfig
  engine : Engine
  deployment : Deployment
  pool : Pool := {}
  counters : Counters := {}
  /-- The next service number for registrations made in this process. -/
  nextService : Nat := 1
  started : Bool := false
  /-- The calls of context listeners so far, in the order in which they became due. -/
  notices : List Notice := []
  deriving DecidableEq

/-- What a committed batch did. -/
structure Report where
  label : String
  effects : List Effect
  /-- How many slots arbitration processed. -/
  iterations : Nat
  deriving DecidableEq

namespace Server

def new (config : ServerConfig) (engine : Engine) (pool : Pool) : Server :=
  { config, engine, pool, deployment := ⟨config.arbitration, config.defaultContext, {}, ∅, ∅, 1⟩ }

def applyEffects (s : Server) (fs : List Effect) : Except EngineError Engine × Pool :=
  if fs.isEmpty then (.ok s.engine, s.pool) else s.engine.apply s.pool fs

def adopt (s : Server) (d : Deployment) (engine : Engine) : Server :=
  let (notices, engine) := engine.committed
  { s with deployment := d, engine, notices := s.notices ++ notices }

/-- Applies a batch as one unit. The first change that is invalid after the ones before it rejects
the batch. Otherwise what it touched is arbitrated again, and the engine has to accept the effects;
instances that it made on the way are kept even if it refuses. -/
def submit (s : Server) (b : Batch) : Except BatchError Report × Server :=
  match s.deployment.applyAll 0 b.changes with
  | .error (index, change, cause) => (.error (.validation b.label index change.label cause), s)
  | .ok changed =>
    let (d, iterations) := s.deployment.rearbitrate changed
    let effects := s.deployment.effects d (Change.refreshed b.changes)
    match s.applyEffects effects with
    | (.error cause, pool) => (.error (.engine b.label cause), { s with pool })
    | (.ok engine, pool) => (.ok ⟨b.label, effects, iterations⟩, { s with pool }.adopt d engine)

def bootstrap (s : Server) : Except ServerError Unit × Server :=
  match s.counters.newContext s.config.defaultContext s.config.defaultContextPath with
  | (.error e, counters) => (.error (.validation e), { s with counters })
  | (.ok c, counters) =>
    match { s with counters }.submit ⟨"bootstrap", [.addContext c]⟩ with
    | (.ok _, s) => (.ok (), s)
    | (.error e, s) => (.error (.batch e), s)

def launch (s : Server) : Except ServerError Unit × Server :=
  match s.engine.configure s.config.engine with
  | .error e => (.error (.engine e), s)
  | .ok engine =>
    match engine.start with
    | .error e => (.error (.engine e), { s with engine })
    | .ok engine => { s with engine }.bootstrap

def start (s : Server) : Except ServerError Unit × Server :=
  if s.started then (.ok (), s)
  else
    match s.launch with
    | (.ok _, s) => (.ok (), { s with started := true })
    | failed => failed

def shutdown (d : Deployment) : Batch :=
  ⟨"shutdown", d.elements.keys.map .removeElement ++ d.contexts.logical.keys.map .removeContext ++
    (d.contexts.physical.filter fun _ p => p.pinned).keys.map .removePhysical⟩

def halt (s : Server) : Except ServerError Unit × Server :=
  match s.submit (shutdown s.deployment) with
  | (.error e, s) => (.error (.batch e), s)
  | (.ok _, s) =>
    match s.engine.stop with
    | .error e => (.error (.engine e), s)
    | .ok engine => (.ok (), { s with engine })

def stop (s : Server) : Except ServerError Unit × Server :=
  if s.started then
    match s.halt with
    | (.ok _, s) => (.ok (), { s with started := false })
    | failed => failed
  else (.ok (), s)

def takeService (s : Server) : Nat × Server :=
  (s.nextService, { s with nextService := s.nextService + 1 })

def summary (s : Server) : String :=
  "WebServer \x7b engine: " ++ Text.quoted s.engine.name ++ ", started: " ++
    (if s.started then "true" else "false") ++ " \x7d"

end Server

end ServletContainer
