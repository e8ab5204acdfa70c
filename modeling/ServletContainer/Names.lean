import ServletContainer.Text.Quoted

/-! How contexts, elements and the modules that publish them are named. -/
namespace ServletContainer

abbrev ContextId := String

abbrev ElementId := Nat

def ElementId.label (id : ElementId) : String := "#" ++ toString id

/-- The module that published a context or an element. -/
structure Module where
  id : Nat
  name : String
  deriving DecidableEq

def Module.label (m : Module) : String := m.name ++ "[" ++ toString m.id ++ "]"

end ServletContainer
