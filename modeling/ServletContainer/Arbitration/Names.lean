import ServletContainer.Arbitration.Slot

/-! Arbitration by names alone, in a single mount: of the elements that share a name in a
namespace, the best one is enabled. -/
namespace ServletContainer

/-- The elements of one namespace and name: the best one, and the others in order. -/
structure NameGroup where
  space : Namespace
  name : String
  enabled : Option ElementId
  shadowed : List ElementId
  deriving DecidableEq

namespace NameGroup

def keyLe (a b : Namespace × String) : Bool :=
  a.1.index < b.1.index || (a.1 == b.1 && a.2 ≤ b.2)

def keyOf (e : Element) : Namespace × String := (.ofKind e.kind, e.name)

def ofKey (es : List Element) (key : Namespace × String) : NameGroup :=
  let ids := (Element.inOrder (es.filter fun e => keyOf e = key)).map (·.id)
  ⟨key.1, key.2, ids.head?, ids.tail⟩

def ofElements (es : List Element) : List NameGroup :=
  let keys := (es.map keyOf).foldl (fun ks k => if ks.contains k then ks else k :: ks) []
  (sortBy keyLe keys).map (ofKey es)

end NameGroup

end ServletContainer
