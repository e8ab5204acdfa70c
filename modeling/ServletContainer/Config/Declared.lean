import ServletContainer.Config.Basic

/-! The declarations of a configuration, checked and under keys by which two configurations can be
compared. -/
namespace ServletContainer

structure Declared where
  contexts : OrdMap String ContextDecl := ∅
  elements : OrdMap String ElementDecl := ∅
  deriving DecidableEq

namespace Declared

/-- Adds a context. It must be valid, must not take the place of the default context, and must be
declared once. -/
def addContext (defaultContext : ContextId) (d : Declared) (n : Counters) (c : ContextDecl) :
    Except ConfigError Declared × Counters :=
  match c.build n with
  | (.error e, n) => (.error (.invalid e), n)
  | (.ok _, n) =>
    if c.name = defaultContext then (.error (.invalid (.duplicateContext c.name)), n)
    else if d.contexts.contains c.name then (.error (.duplicate ("context " ++ c.name)), n)
    else (.ok { d with contexts := d.contexts.insert c.name c }, n)

/-- Adds an element. It must be valid, its contexts must be declared, and its name must be new for
its kind. -/
def addElement (defaultContext : ContextId) (d : Declared) (n : Counters) (e : ElementDecl) :
    Except ConfigError Declared × Counters :=
  match e.build 0 n with
  | (.error err, n) => (.error (.invalid err), n)
  | (.ok _, n) =>
    match e.contexts.find? fun c => c != defaultContext && !d.contexts.contains c with
    | some missing => (.error (.invalid (.unknownContext missing)), n)
    | none =>
      if d.elements.contains e.key then (.error (.duplicate e.key), n)
      else (.ok { d with elements := d.elements.insert e.key e }, n)

def addAll (add : Declared → Counters → α → Except ConfigError Declared × Counters) :
    Declared → Counters → List α → Except ConfigError Declared × Counters
  | d, n, [] => (.ok d, n)
  | d, n, x :: xs =>
    match add d n x with
    | (.ok d, n) => addAll add d n xs
    | failed => failed

end Declared

/-- Checks the declarations of a configuration. Everything is built once for this, which takes
numbers. -/
def Config.declared (c : Config) (n : Counters) : Except ConfigError Declared × Counters :=
  let default := c.server.defaultContext
  match Declared.addAll (Declared.addContext default) {} n c.contexts with
  | (.ok d, n) => Declared.addAll (Declared.addElement default) d n c.elements
  | failed => failed

end ServletContainer
