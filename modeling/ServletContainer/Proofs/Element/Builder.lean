import ServletContainer.Element.Builder
import ServletContainer.Proofs.Pattern

/-! Elements that were built. What they are made of was checked (`Builder.element_ok`), and their url
patterns were read from the texts among their settings (`Builder.mem_urlPatterns`). -/
namespace ServletContainer

/-- The url patterns of the element were read from texts, as those of an element are that was built. -/
def Element.MappingRead (e : Element) : Prop := ∀ u ∈ e.patterns.urlPatterns, u.IsRead

namespace Builder

variable {b : Builder} {e : Element} {id : ElementId}

theorem element_ok (h : b.element id = .ok e) :
    ∃ name patterns details, b.checkedName = .ok name ∧ b.checkedPatterns name = .ok patterns ∧
      b.checkedDetails name patterns = .ok details ∧
      e = {
        id, name, patterns, details
        targets := Element.distinct b.targets, rank := b.rank, serviceId := b.serviceId
        dynamic := b.dynamic, owner := b.owner, init := b.init } := by
  unfold element at h
  cases hname : b.checkedName with
  | error err => simp [hname, bind, Except.bind] at h
  | ok name =>
    cases hpatterns : b.checkedPatterns name with
    | error err => simp [hname, hpatterns, bind, Except.bind] at h
    | ok patterns =>
      cases hdetails : b.checkedDetails name patterns with
      | error err => simp [hname, hpatterns, hdetails, bind, Except.bind] at h
      | ok details =>
        simp only [hname, hpatterns, hdetails, bind, Except.bind, pure, Except.pure,
          Except.ok.injEq] at h
        exact ⟨name, patterns, details, rfl, hpatterns, hdetails, h.symm⟩

theorem element_renumber (h : b.element id = .ok e) (serviceId : Nat) (j : ElementId) :
    ({ b with serviceId } : Builder).element j = .ok { e with id := j, serviceId } := by
  obtain ⟨name, patterns, details, hname, hpatterns, hdetails, rfl⟩ := element_ok h
  have hname : ({ b with serviceId } : Builder).checkedName = .ok name := hname
  have hpatterns : ({ b with serviceId } : Builder).checkedPatterns name = .ok patterns := hpatterns
  have hdetails : ({ b with serviceId } : Builder).checkedDetails name patterns = .ok details :=
    hdetails
  simp [element, hname, hpatterns, hdetails, bind, Except.bind, pure, Except.pure]

theorem forall₂_of_checkedPatterns {name : String} {ps : Patterns}
    (h : b.checkedPatterns name = .ok ps) :
    List.Forall₂ (fun s u => UrlPattern.parse s = .ok u) b.urlPatterns ps.urlPatterns := by
  unfold checkedPatterns at h
  split at h
  · cases h
  · rename_i hone
    split at h
    · exact (Patterns.parseUrls_ok h).1
    · rename_i hregex
      have hnone : b.urlPatterns = [] := by simpa [hregex] using hone
      rw [hnone, Patterns.urlPatterns_of_parseRegexes h]
      exact .nil

theorem forall₂_urlPatterns (h : b.element id = .ok e) :
    List.Forall₂ (fun s u => UrlPattern.parse s = .ok u) b.urlPatterns e.patterns.urlPatterns := by
  obtain ⟨name, patterns, details, _, hpatterns, _, rfl⟩ := element_ok h
  exact forall₂_of_checkedPatterns hpatterns

theorem mappingRead (h : b.element id = .ok e) : e.MappingRead := by
  intro u hu
  obtain ⟨s, _, hs⟩ := exists_left_of_forall₂ (forall₂_urlPatterns h) hu
  exact ⟨s, hs⟩

theorem mem_urlPatterns (h : b.element id = .ok e) {u : UrlPattern} :
    u ∈ e.patterns.urlPatterns ↔ u.Readable ∧ u.text ∈ b.urlPatterns := by
  have hread := forall₂_urlPatterns h
  constructor
  · intro hu
    obtain ⟨s, hs, hsu⟩ := exists_left_of_forall₂ hread hu
    obtain ⟨rfl, hu⟩ := UrlPattern.parse_eq_ok_iff.1 hsu
    exact ⟨hu, hs⟩
  · rintro ⟨hu, htext⟩
    obtain ⟨v, hv, htv⟩ := exists_right_of_forall₂ hread htext
    have htu : UrlPattern.parse u.text = .ok u := UrlPattern.parse_eq_ok_iff.2 ⟨rfl, hu⟩
    rwa [Except.ok.inj (htu.symm.trans htv)]

end Builder

/-- The element was built from these settings, or it is a copy of one that was, bound to other contexts. -/
def Element.MadeFrom (e : Element) (b : Builder) : Prop :=
  ∃ built id, b.element id = .ok built ∧ (e = built ∨ ∃ ts copy, e = built.withTargets ts copy)

namespace Element.MadeFrom

variable {b : Builder} {e : Element} {u : UrlPattern} {text : String}

theorem mem_urlPatterns (h : e.MadeFrom b) :
    u ∈ e.patterns.urlPatterns ↔ u.Readable ∧ u.text ∈ b.urlPatterns := by
  obtain ⟨built, id, hbuilt, rfl | ⟨ts, copy, rfl⟩⟩ := h <;> exact Builder.mem_urlPatterns hbuilt

theorem exists_readable (h : e.MadeFrom b) (htext : text ∈ b.urlPatterns) :
    ∃ u : UrlPattern, u.Readable ∧ u.text = text := by
  obtain ⟨built, id, hbuilt, _⟩ := h
  obtain ⟨u, _, hu⟩ := exists_right_of_forall₂ (Builder.forall₂_urlPatterns hbuilt) htext
  obtain ⟨rfl, hread⟩ := UrlPattern.parse_eq_ok_iff.1 hu
  exact ⟨u, hread, rfl⟩

end Element.MadeFrom

end ServletContainer
