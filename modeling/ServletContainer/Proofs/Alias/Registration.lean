import ServletContainer.Arbitration.Slot
import ServletContainer.Proofs.Pattern.Text
import ServletContainer.Proofs.Server.Rollback

/-! Registration under aliases. For a valid alias an element can always be built (`build_builder`), and its
name and patterns are made from the alias in such a way that the elements of two aliases have no slot in
common (`Serves.eq_of_mem_slots`). A call adds one such element, removes those of the aliases that it
drops, or does neither (`called_call`). -/
namespace ServletContainer

open Text

def AliasTarget.details : AliasTarget → Details
  | .servlet s _ => .servlet (.given s)
  | .resources folder => .resource (String.ofList (dropEnd (· == '/') folder.toList))

def AliasTarget.settings : AliasTarget → OrdMap String String
  | .servlet _ init => init
  | .resources _ => ∅

namespace Aliases

variable {a b : String} {owner : Module} {target : AliasTarget} {context : Option ContextId}
  {serviceId : Nat} {id : ElementId} {e : Element}

def patterns (a : String) : List UrlPattern :=
  if a = "/" then [.subtree ""] else [.exact a, .subtree a]

def element (owner : Module) (a : String) (target : AliasTarget) (context : Option ContextId)
    (serviceId : Nat) (id : ElementId) : Element where
  id := id
  name := a
  patterns := .urls (patterns a)
  targets := context.toList
  rank := 0
  serviceId := serviceId
  dynamic := true
  owner := some owner
  init := target.settings
  details := target.details

section Build

theorem plain_of_isValid (h : isValid a) : a.toList.head? = some '/' ∧ '*' ∉ a.toList := by
  simp only [isValid, Bool.and_eq_true, Bool.or_eq_true, beq_iff_eq] at h
  obtain ⟨hstart, hstar⟩ := h
  refine ⟨?_, by simpa using hstar⟩
  rcases hstart with hroot | ⟨hhead, _⟩
  · rw [hroot, List.head?_cons]
  · exact hhead

theorem parseUrls_patternsOf (h : isValid a) :
    Patterns.parseUrls a (patternsOf a) = .ok (.urls (patterns a)) := by
  by_cases hroot : a = "/"
  · subst hroot
    rfl
  · obtain ⟨hstart, hstar⟩ := plain_of_isValid h
    have hexact : UrlPattern.parse a = .ok (.exact a) :=
      UrlPattern.parse_eq_ok_iff.2 ⟨rfl, .exact hstart hroot hstar⟩
    have hsubtree : UrlPattern.parse (a ++ "/*") = .ok (.subtree a) :=
      UrlPattern.parse_eq_ok_iff.2 ⟨rfl, .subtree (.inr hstart) hstar⟩
    simp [Patterns.parseUrls, patternsOf, patterns, hroot, Patterns.readUrls, hexact, hsubtree]

theorem trimChars_of_isValid (h : isValid a) : trimChars a.toList ≠ [] := by
  obtain ⟨cs, hcs⟩ := List.head?_eq_some_iff.1 (plain_of_isValid h).1
  have hstart : dropStart isBlank ('/' :: cs) = '/' :: cs := rfl
  rw [hcs, trimChars, hstart, dropEnd_cons]
  split <;> simp [isBlank]

theorem build_builder (h : isValid a) (n : Counters) :
    (builder owner a target context serviceId).build n =
      (.ok (element owner a target context serviceId n.element),
        { n with element := n.element + 1 }) := by
  have hname : (builder owner a target context serviceId).checkedName = .ok a := by
    cases target <;> simp [builder, Builder.checkedName, trimChars_of_isValid h]
  have hpatterns : (builder owner a target context serviceId).checkedPatterns a =
      .ok (.urls (patterns a)) := by
    rw [← parseUrls_patternsOf h]
    cases target <;> simp [builder, Builder.checkedPatterns]
  have hdistinct : Element.distinct context.toList = context.toList := by
    cases context <;> rfl
  have helement : (builder owner a target context serviceId).element n.element =
      .ok (element owner a target context serviceId n.element) := by
    simp only [Builder.element, hname, hpatterns, bind, Except.bind]
    cases target <;>
      simp [builder, Builder.checkedDetails, hdistinct, element, AliasTarget.details,
        AliasTarget.settings, pure, Except.pure]
  rw [Builder.build, helement]

end Build

section Slots

/-- A dynamic element under the name and the patterns of an alias. -/
structure Serves (e : Element) (a : String) : Prop where
  name : e.name = a
  patterns : e.patterns = .urls (patterns a)
  space : Namespace.ofKind e.kind = .servlet
  dynamic : e.dynamic

theorem serves_element : Serves (element owner a target context serviceId id) a := by
  refine ⟨rfl, rfl, ?_, rfl⟩
  cases target <;> rfl

theorem Serves.mem_slots (h : Serves e a) {x : Slot} (hx : x ∈ e.slots) :
    x = .name a ∨ ∃ p ∈ Aliases.patterns a, x = .pattern p := by
  have hspace := h.space
  rw [Element.slots, h.name, h.patterns] at hx
  rw [Element.kind] at hspace
  cases hdetails : e.details <;> rw [hdetails] at hx hspace <;> cases hspace <;>
    simpa [Patterns.urlPatterns, eq_comm] using hx

theorem eq_of_mem_patterns (ha : isValid a) (hb : isValid b) {p : UrlPattern}
    (hpa : p ∈ patterns a) (hpb : p ∈ patterns b) : a = b := by
  have hempty {c : String} (hc : isValid c) : c ≠ "" := by
    rintro rfl
    exact absurd hc (by decide)
  simp only [patterns] at hpa hpb
  split at hpa <;> split at hpb <;> simp at hpa hpb
  · rename_i ha hb
    rw [ha, hb]
  · rw [hpa] at hpb
    simp [eq_comm, hempty hb] at hpb
  · rw [hpb] at hpa
    simp [eq_comm, hempty ha] at hpa
  · rcases hpa with rfl | rfl <;> simpa using hpb

theorem Serves.eq_of_mem_slots {f : Element} (he : Serves e a) (hf : Serves f b) (ha : isValid a)
    (hb : isValid b) {x : Slot} (hxe : x ∈ e.slots) (hxf : x ∈ f.slots) : a = b := by
  rcases he.mem_slots hxe with rfl | ⟨p, hpa, rfl⟩ <;> rcases hf.mem_slots hxf with h | ⟨q, hqb, h⟩ <;>
    cases h
  · rfl
  · exact eq_of_mem_patterns ha hb hpa hqb

end Slots

section Calls

variable {as : Aliases} {s : Server}

def counted (s : Server) : Server :=
  { s with
    counters := { s.counters with element := s.counters.element + 1 }
    nextService := s.nextService + 1 }

theorem consumes_counted (s : Server) : s.Consumes (counted s) :=
  ⟨rfl, .refl _, ⟨Nat.le_succ _, Nat.le_refl _⟩, Nat.le_succ _⟩

theorem register_eq (h : isValid a) (hfree : as.entries.find? a = none) :
    as.register s owner a target context =
      let e := element owner a target context s.nextService s.counters.element
      match (counted s).submit ⟨"register alias " ++ a, [.addElement e]⟩ with
      | (.ok _, t) => (.ok e.id, ⟨as.entries.insert a ⟨owner, e.id⟩⟩, t)
      | (.error err, t) => (.error (.batch err), as, t) := by
  have hcontains : as.entries.contains a = false := by simp [OrdMap.contains, hfree]
  simp only [register, h, hcontains, Bool.not_true, Bool.false_eq_true, if_false, Server.takeService,
    deploy, build_builder h, counted]
  split <;> split at * <;> simp_all

theorem toBool_register (h : isValid a) (hfree : as.entries.find? a = none) :
    (as.register s owner a target context).1.toBool =
      ((counted s).submit ⟨"register alias " ++ a,
        [.addElement (element owner a target context s.nextService s.counters.element)]⟩).1.toBool := by
  rw [register_eq h hfree]
  simp only
  split <;> rename_i hsubmit <;> rw [hsubmit] <;> rfl

/-- What can be asked for. -/
inductive Call where
  | register (owner : Module) (a : String) (target : AliasTarget) (context : Option ContextId)
  | unregister (owner : Module) (a : String)
  | unregisterAll (owner : Module)

def call (as : Aliases) (s : Server) : Call → Aliases × Server
  | .register owner a target context => (as.register s owner a target context).2
  | .unregister owner a => (as.unregister s owner a).2
  | .unregisterAll owner => (as.unregisterAll s owner).2

/-- Some aliases are left, and the elements of the others are `ids`. -/
structure Drops (as : Aliases) (ids : List ElementId) (left : Aliases) : Prop where
  kept : ∀ a x, left.entries.find? a = some x → as.entries.find? a = some x
  dropped : ∀ id, id ∈ ids ↔
    ∃ a x, as.entries.find? a = some x ∧ left.entries.find? a = none ∧ x.element = id

theorem Drops.not_mem {left : Aliases} {ids : List ElementId} (h : as.Drops ids left)
    (hdistinct : ∀ a b x y, as.entries.find? a = some x → as.entries.find? b = some y →
      x.element = y.element → a = b) {x : Alias} (ha : left.entries.find? a = some x) :
    x.element ∉ ids := by
  intro hmem
  obtain ⟨b, y, hb, hnone, hid⟩ := (h.dropped x.element).1 hmem
  obtain rfl := hdistinct b a y x hb (h.kept a x ha) hid
  simp [hnone] at ha

/-- How a call can end. -/
inductive Called (as : Aliases) (s : Server) : Aliases × Server → Prop
  | refused (t : Server) (h : s.Consumes t) : Called as s (as, t)
  | added (a : String) (owner : Module) (e : Element) (u t : Server) (label : String) (report : Report)
      (hvalid : isValid a) (hfree : as.entries.find? a = none) (he : Serves e a)
      (hid : e.id = s.counters.element) (hu : s.Consumes u) (hcount : e.id < u.counters.element)
      (h : u.submit ⟨label, [.addElement e]⟩ = (.ok report, t)) :
      Called as s (⟨as.entries.insert a ⟨owner, e.id⟩⟩, t)
  | dropped (ids : List ElementId) (left : Aliases) (t : Server) (label : String) (report : Report)
      (hids : as.Drops ids left) (h : s.submit ⟨label, ids.map .removeElement⟩ = (.ok report, t)) :
      Called as s (left, t)

/-- A registration is refused, or ends with the batch that adds its element. -/
theorem register_cases (as : Aliases) (s : Server) (owner : Module) (a : String) (target : AliasTarget)
    (context : Option ContextId) :
    (∃ t, s.Consumes t ∧ (as.register s owner a target context).2 = (as, t)) ∨
      isValid a ∧ as.entries.find? a = none ∧
        let e := element owner a target context s.nextService s.counters.element
        ∃ label report t, (counted s).submit ⟨label, [.addElement e]⟩ = (.ok report, t) ∧
          (as.register s owner a target context).2 = (⟨as.entries.insert a ⟨owner, e.id⟩⟩, t) := by
  by_cases hvalid : isValid a
  · cases hfree : as.entries.find? a with
    | some x =>
      have hcontains : as.entries.contains a := by simp [OrdMap.contains, hfree]
      simp only [register, hvalid, hcontains, Bool.not_true, Bool.false_eq_true, if_false, if_true]
      exact .inl ⟨s, .refl s, rfl⟩
    | none =>
      rw [register_eq hvalid hfree]
      simp only
      split <;> rename_i hsubmit
      · exact .inr ⟨hvalid, trivial, _, _, _, hsubmit, rfl⟩
      · exact .inl ⟨_, (consumes_counted s).trans (Server.consumes_submit hsubmit), rfl⟩
  · simp only [register, hvalid, Bool.not_false, if_true]
    exact .inl ⟨s, .refl s, rfl⟩

theorem called_register : Called as s (as.register s owner a target context).2 := by
  obtain ⟨t, ht, heq⟩ | ⟨hvalid, hfree, label, report, t, hsubmit, heq⟩ :=
    as.register_cases s owner a target context <;> rw [heq]
  · exact .refused t ht
  · exact .added a owner _ _ _ _ _ hvalid hfree serves_element rfl (consumes_counted s)
      (Nat.lt_succ_self _) hsubmit

theorem drops_erase {x : Alias} (h : as.entries.find? a = some x) :
    as.Drops [x.element] ⟨as.entries.erase a⟩ where
  kept b y hy := by
    rw [OrdMap.find?_erase_eq] at hy
    split at hy
    · cases hy
    · exact hy
  dropped id := by
    simp only [List.mem_singleton, OrdMap.find?_erase_eq]
    grind

theorem drops_filter (as : Aliases) (owner : Module) :
    as.Drops ((as.entries.filter fun _ x => x.owner = owner).values.map (·.element))
      ⟨as.entries.filter fun _ x => x.owner ≠ owner⟩ where
  kept b y hy := by
    rw [OrdMap.find?_filter] at hy
    exact (Option.filter_eq_some_iff.1 hy).1
  dropped id := by
    simp only [List.mem_map, OrdMap.mem_values_iff, OrdMap.find?_filter, Option.filter_eq_some_iff,
      Option.filter_eq_none_iff]
    grind

theorem called_unregister : Called as s (as.unregister s owner a).2 := by
  unfold unregister
  split
  · exact .refused s (.refl s)
  · rename_i x hx
    split <;> rename_i hsubmit
    · exact .dropped [x.element] _ _ _ _ (drops_erase (Option.filter_eq_some_iff.1 hx).1) hsubmit
    · exact .refused _ (Server.consumes_submit hsubmit)

theorem called_unregisterAll : Called as s (as.unregisterAll s owner).2 := by
  simp only [unregisterAll]
  split
  · exact .refused s (.refl s)
  · split <;> rename_i hsubmit
    · exact .dropped _ _ _ _ _ (as.drops_filter owner) hsubmit
    · exact .refused _ (Server.consumes_submit hsubmit)

theorem called_call (as : Aliases) (s : Server) (c : Call) : Called as s (as.call s c) :=
  match c with
  | .register .. => called_register
  | .unregister .. => called_unregister
  | .unregisterAll _ => called_unregisterAll

end Calls

end Aliases

end ServletContainer
