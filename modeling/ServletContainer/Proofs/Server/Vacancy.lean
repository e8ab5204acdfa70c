import ServletContainer.Proofs.Deployment.Withdrawn
import ServletContainer.Proofs.Server.Stop

/-! Deployments with nothing on them. Withdrawing everything leads to one (`Commits.vacant_shutdown`),
and a context that is bound on one is alone there (`Vacant.becomes`). -/
namespace ServletContainer

namespace Contexts

/-- One context at its mount point, and nothing else. -/
def sole (c : LogicalContext) : Contexts :=
  ⟨(∅ : OrdMap _ _).insert c.path { bound := [c.id] }, (∅ : OrdMap _ _).insert c.id c⟩

variable (c : LogicalContext)

theorem bind_empty : ({} : Contexts).bind c = .ok (sole c) := by
  have hmodify (x : Physical) (f : Physical → Physical) :
      ((∅ : OrdMap ContextPath Physical).insert c.path x).modify c.path f =
        (∅ : OrdMap _ _).insert c.path (f x) := by
    refine OrdMap.ext_find? fun q => ?_
    rw [OrdMap.find?_modify, OrdMap.find?_insert_eq, OrdMap.find?_insert_eq]
    grind
  have hensure : ({} : Contexts).ensure c.path = ⟨(∅ : OrdMap _ _).insert c.path {}, ∅⟩ := rfl
  simp only [bind, hensure, sortBound, hmodify]
  rfl

theorem boundAt_sole : (sole c).boundAt c.path = [c] := by
  simp [boundAt, sole, OrdMap.find?_insert_eq]

end Contexts

namespace Deployment

variable {d d' : Deployment} {c : LogicalContext}

/-- Nothing is deployed, nothing is mounted, and nothing is remembered. -/
structure Vacant (d : Deployment) : Prop where
  elements : d.elements = ∅
  contexts : d.contexts = {}
  withdrawn : d.withdrawn = ∅

theorem elements_eq_empty (h : ∀ id, d.placed id = none) : d.elements = ∅ :=
  OrdMap.ext_find? fun id => placed_eq_none.1 (h id)

theorem placed_of_empty (h : d.elements = ∅) (id : ElementId) : d.placed id = none := by
  rw [placed_eq_none, h]
  rfl

theorem rearbitrate_of_empty (h : d'.elements = ∅) : (d.rearbitrate d').1 = d' := by
  obtain ⟨policy, context, contexts, elements, withdrawn, next⟩ := d'
  cases h
  rfl

theorem Commits.vacant_shutdown (h : d.Commits (Server.shutdown d).changes d')
    (hw : d.contexts.WellFormed) (ht : d.contexts.Tended) (hr : d.Remembers) : d'.Vacant := by
  have helements : d'.elements = ∅ := elements_eq_empty h.placed_shutdown
  have hphysical : d'.contexts.physical = ∅ := h.physical_shutdown hw ht
  -- a context would be bound at a mount point, and there is none
  have hlogical : d'.contexts.logical = ∅ := by
    refine OrdMap.ext_find? fun id => Option.eq_none_iff_forall_ne_some.2 fun c hc => ?_
    have hbound := (h.wellFormed hw).bound id c hc
    rw [Contexts.boundIds, hphysical] at hbound
    cases hbound
  exact ⟨helements, by rw [← hphysical, ← hlogical], (h.remembers hr).withdrawn_eq helements⟩

theorem Vacant.becomes (hd : d.Vacant) (c : LogicalContext) :
    d.Becomes [.addContext c] { d with contexts := .sole c } := by
  obtain ⟨policy, context, contexts, elements, withdrawn, next⟩ := d
  obtain ⟨rfl, rfl, rfl⟩ := hd
  refine becomes_cons.2 ⟨_, ?_, becomes_nil.2 rfl⟩
  rw [apply, Contexts.bind_empty]
  rfl

theorem Vacant.table_eq (hd : d.Vacant) : d.table = {} := by
  obtain ⟨policy, context, contexts, elements, withdrawn, next⟩ := d
  obtain ⟨rfl, rfl, rfl⟩ := hd
  rfl

theorem table_sole (helements : d.elements = ∅) (hcontexts : d.contexts = .sole c) :
    d.table = ⟨[⟨c.path, [c], [], [], [], []⟩], []⟩ := by
  obtain ⟨policy, context, contexts, elements, withdrawn, next⟩ := d
  cases helements
  cases hcontexts
  have hmount (p : ContextPath) : mountAt ⟨policy, context, .sole c, ∅, withdrawn, next⟩ p =
      ⟨p, (Contexts.sole c).boundAt p, [], [], [], []⟩ := rfl
  change Table.mk [mountAt ⟨policy, context, .sole c, ∅, withdrawn, next⟩ c.path] [] = _
  rw [hmount, Contexts.boundAt_sole]

theorem mounts_sole (helements : d.elements = ∅) (hcontexts : d.contexts = .sole c) :
    d.mounts = (∅ : OrdMap _ _).insert c.path ⟨.ofList [c.id], ∅, []⟩ := by
  obtain ⟨policy, context, contexts, elements, withdrawn, next⟩ := d
  cases helements
  cases hcontexts
  have hoccupancy (p : ContextPath) : occupancy ⟨policy, context, .sole c, ∅, withdrawn, next⟩ p =
      ⟨.ofList (((Contexts.sole c).boundAt p).map (·.id)), ∅, []⟩ := rfl
  refine (OrdMap.mapWithKey_insert ..).trans ?_
  change (∅ : OrdMap _ _).insert c.path
    (occupancy ⟨policy, context, .sole c, ∅, withdrawn, next⟩ c.path) = _
  rw [hoccupancy, Contexts.boundAt_sole]
  rfl

end Deployment

end ServletContainer
