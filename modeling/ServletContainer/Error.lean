import ServletContainer.Names

/-! The causes for which a registration, a batch, an engine or a dispatch fails, and their messages. -/
namespace ServletContainer

open Text (quoted)

/-- A malformed registration, or a change that does not fit the state it is made in. -/
inductive ValidationError where
  | missingName
  | missingSource (name : String)
  | sourceKindMismatch (name kind : String)
  | missingMapping (name : String)
  | conflictingPatternTypes (name : String)
  | duplicatePattern (name pattern : String)
  | invalidPattern (pattern : String)
  | invalidRegex (pattern : String)
  | invalidPath (path : String)
  | emptyErrorPage (name : String)
  | duplicateContext (id : ContextId)
  | unknownContext (id : ContextId)
  | unknownPhysicalContext (path : String)
  | physicalContextInUse (path : String) (context : ContextId)
  | duplicateElement (id : ElementId)
  | unknownElement (id : ElementId)
  | aliasInUse (path : String)
  | unknownAlias (path : String)
  deriving DecidableEq

def ValidationError.name : ValidationError → String
  | .missingName => "MissingName"
  | .missingSource _ => "MissingSource"
  | .sourceKindMismatch .. => "SourceKindMismatch"
  | .missingMapping _ => "MissingMapping"
  | .conflictingPatternTypes _ => "ConflictingPatternTypes"
  | .duplicatePattern .. => "DuplicatePattern"
  | .invalidPattern _ => "InvalidPattern"
  | .invalidRegex _ => "InvalidRegex"
  | .invalidPath _ => "InvalidPath"
  | .emptyErrorPage _ => "EmptyErrorPage"
  | .duplicateContext _ => "DuplicateContext"
  | .unknownContext _ => "UnknownContext"
  | .unknownPhysicalContext _ => "UnknownPhysicalContext"
  | .physicalContextInUse .. => "PhysicalContextInUse"
  | .duplicateElement _ => "DuplicateElement"
  | .unknownElement _ => "UnknownElement"
  | .aliasInUse _ => "AliasInUse"
  | .unknownAlias _ => "UnknownAlias"

def ValidationError.message : ValidationError → String
  | .missingName => "element name is missing"
  | .missingSource n => "element " ++ n ++ " has no instance, class reference or supplier"
  | .sourceKindMismatch n k =>
    "element " ++ n ++ " is a " ++ k ++ " but its source provides a different kind"
  | .missingMapping n => "filter " ++ n ++ " maps no url pattern, regex pattern or servlet name"
  | .conflictingPatternTypes n => "element " ++ n ++ " sets both url patterns and regex patterns"
  | .duplicatePattern n p => "element " ++ n ++ " declares url pattern " ++ p ++ " twice"
  | .invalidPattern p => "invalid url pattern " ++ quoted p
  | .invalidRegex p => "invalid regex pattern " ++ quoted p
  | .invalidPath p => "invalid context path " ++ quoted p
  | .emptyErrorPage n => "error page " ++ n ++ " maps no error code or exception"
  | .duplicateContext c => "logical context " ++ c ++ " already exists"
  | .unknownContext c => "logical context " ++ c ++ " does not exist"
  | .unknownPhysicalContext p => "physical context " ++ p ++ " does not exist"
  | .physicalContextInUse p c =>
    "physical context " ++ p ++ " is still used by logical context " ++ c
  | .duplicateElement e => "element " ++ ElementId.label e ++ " already exists"
  | .unknownElement e => "element " ++ ElementId.label e ++ " does not exist"
  | .aliasInUse a => "alias " ++ a ++ " is already registered"
  | .unknownAlias a => "alias " ++ a ++ " is not registered by this module"

/-- An engine refused a call. -/
structure EngineError where
  engine : String
  effect : String
  reason : String
  deriving DecidableEq

def EngineError.message (e : EngineError) : String :=
  "engine " ++ e.engine ++ " rejected " ++ e.effect ++ ": " ++ e.reason

/-- Why a batch was not committed: its first invalid change, or the engine's refusal. -/
inductive BatchError where
  | validation (label : String) (index : Nat) (op : String) (cause : ValidationError)
  | engine (label : String) (cause : EngineError)
  deriving DecidableEq

def BatchError.message : BatchError → String
  | .validation label index op cause =>
    "batch " ++ quoted label ++ " rejected at operation #" ++ toString index ++ " (" ++ op ++ "): "
      ++ cause.message
  | .engine label cause => "batch " ++ quoted label ++ " rolled back: " ++ cause.message

/-- A failure that a collaborator reports. -/
structure ServletError where
  kind : Option String
  message : String
  deriving DecidableEq

/-- How a dispatch can fail. -/
inductive DispatchError where
  | servlet (e : ServletError)
  | panic (message : String)
  | instantiation (element reason : String)
  deriving DecidableEq

def DispatchError.message : DispatchError → String
  | .servlet e => "servlet error: " ++ e.message
  | .panic m => "collaborator panic: " ++ m
  | .instantiation n r => "element " ++ n ++ " could not be instantiated: " ++ r

/-- How starting or stopping a server, or a registration, can fail. -/
inductive ServerError where
  | validation (e : ValidationError)
  | engine (e : EngineError)
  | batch (e : BatchError)
  deriving DecidableEq

def ServerError.message : ServerError → String
  | .validation e => e.message
  | .engine e => e.message
  | .batch e => e.message

/-- How reading a configuration can fail. -/
inductive ConfigError where
  | io
  | parse
  | invalid (cause : ValidationError)
  | duplicate (key : String)
  deriving DecidableEq

def ConfigError.message : ConfigError → String
  | .io => "config io error"
  | .parse => "config parse error"
  | .invalid e => "invalid config: " ++ e.message
  | .duplicate k => k ++ " is declared more than once"

end ServletContainer
