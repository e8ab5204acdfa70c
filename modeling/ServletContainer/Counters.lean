import ServletContainer.Context.Basic

/-! The numbers given to elements and contexts, in the order in which they are made. -/
namespace ServletContainer

/-- The numbers that the next element and the next context get. -/
structure Counters where
  element : ElementId := 1
  order : Nat := 1
  deriving DecidableEq

/-- A context without settings; only one with a valid path takes a place in the order. -/
def Counters.newContext (n : Counters) (id : ContextId) (path : String) :
    Except ValidationError LogicalContext × Counters :=
  match ContextPath.parse path with
  | .ok p => (.ok { id, path := p, order := n.order }, { n with order := n.order + 1 })
  | .error e => (.error e, n)

end ServletContainer
