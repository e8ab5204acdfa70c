import ServletContainer.Dispatch.Table
import ServletContainer.Proofs.Deployment.Incremental

/-! The lists of enabled elements: what they contain, and that they have the better elements first.
Elements are deployed under their own numbers, so that no two in a list have the same number. -/
namespace ServletContainer

namespace Deployment

variable {d : Deployment} {e : Element} {id : ElementId} {p : ContextPath}

theorem mem_enabledAt : e ∈ d.enabledAt p ↔
    ∃ id s, d.elements.find? id = some s ∧ p ∈ s.enabledIn.elems ∧ s.element = e := by
  simp only [enabledAt, Element.mem_inOrder, List.mem_map, List.mem_filter, OrdMap.mem_values_iff,
    OrdSet.contains_iff]
  constructor
  · rintro ⟨s, ⟨⟨id, hs⟩, hp⟩, he⟩
    exact ⟨id, s, hs, hp, he⟩
  · rintro ⟨id, s, hs, hp, he⟩
    exact ⟨s, ⟨⟨id, hs⟩, hp⟩, he⟩

theorem mem_enabledIn : p ∈ (d.enabledIn id).elems ↔
    ∃ s, d.elements.find? id = some s ∧ p ∈ s.enabledIn.elems := by
  unfold enabledIn
  cases d.elements.find? id <;> simp

theorem Keyed.element_mem_enabledAt (hd : d.Keyed) {s : Deployed} (hs : d.elements.find? id = some s) :
    s.element ∈ d.enabledAt p ↔ p ∈ (d.enabledIn id).elems := by
  rw [mem_enabledAt, mem_enabledIn]
  constructor
  · rintro ⟨j, t, ht, hp, heq⟩
    have hj : j = id := by rw [← hd j t ht, heq, hd id s hs]
    exact ⟨t, hj ▸ ht, hp⟩
  · rintro ⟨t, ht, hp⟩
    cases hs.symm.trans ht
    exact ⟨id, s, hs, hp, rfl⟩

theorem mem_enabledFilters : e ∈ d.enabledFilters p ↔ e ∈ d.enabledAt p ∧ e.kind = .filter := by
  simp [enabledFilters]

theorem enabledAt_sublist (d : Deployment) (p : ContextPath) :
    ((d.elements.values.filter (·.enabledIn.contains p)).map (·.element)).Sublist d.elementList :=
  List.filter_sublist.map _

theorem Keyed.ranked_enabledAt (hd : d.Keyed) (p : ContextPath) : Element.Ranked (d.enabledAt p) :=
  Element.ranked_inOrder (hd.nodup_elementList.sublist ((d.enabledAt_sublist p).map _))

theorem Keyed.ranked_enabledFilters (hd : d.Keyed) (p : ContextPath) :
    Element.Ranked (d.enabledFilters p) :=
  (hd.ranked_enabledAt p).filter _

theorem Keyed.ranked_preprocessors (hd : d.Keyed) : Element.Ranked d.preprocessors :=
  Element.ranked_inOrder (hd.nodup_elementList.sublist (List.filter_sublist.map _))

end Deployment

end ServletContainer
