import ServletContainer.Config.Declared
import ServletContainer.Proofs.Deployment.Entries
import ServletContainer.Proofs.Element.Builder

/-! What declarations say about contexts and elements. What is made of a declaration is described by it
(`ContextDecl.build_ok`, `ElementDecl.build_ok`), and two elements that it describes differ at most in their
numbers. Declarations that were checked can be made, and refer to nothing but each other and the default
context (`Config.checked`). -/
namespace ServletContainer

namespace ContextDecl

variable {x y : ContextDecl} {c c' : LogicalContext} {n n' : Counters}

/-- The context is as declared; its directory may be spelled differently. -/
structure Describes (x : ContextDecl) (c : LogicalContext) : Prop where
  id : c.id = x.name
  path : ContextPath.parse x.path = .ok c.path
  rank : c.rank = x.rank
  owner : c.owner = none
  helper : ∃ base, c.helper = .directory base x.header ∧
    base.map Files.spelling = x.base.map Files.spelling
  init : c.init = x.init
  session : c.session = x.session

theorem same_iff : x.same y ↔
    x.base.map Files.spelling = y.base.map Files.spelling ∧ { x with base := y.base } = y := by
  simp [same]

theorem same_symm (h : x.same y) : y.same x := by
  rw [same_iff] at h ⊢
  obtain ⟨hbase, hrest⟩ := h
  exact ⟨hbase.symm, by rw [← hrest]⟩

theorem sameButRank_of_same (h : x.same y) : y.sameButRank x := by
  have h := same_symm h
  have hrank : x.rank = y.rank := congrArg (·.rank) (same_iff.1 h).2.symm
  rw [sameButRank, hrank]
  exact h

theorem Describes.of_same (h : x.Describes c) (hxy : x.same y) : y.Describes c := by
  obtain ⟨hbase, hrest⟩ := same_iff.1 hxy
  obtain ⟨base, hhelper, hspelling⟩ := h.helper
  rw [← hrest]
  exact ⟨h.id, h.path, h.rank, h.owner, ⟨base, hhelper, hspelling.trans hbase⟩, h.init, h.session⟩

theorem Describes.of_sameButRank (h : x.Describes c) (hxy : x.sameButRank y) :
    y.Describes { c with rank := y.rank } :=
  Describes.of_same (x := { x with rank := y.rank })
    ⟨h.id, h.path, rfl, h.owner, h.helper, h.init, h.session⟩ hxy

theorem build_ok (h : x.build n = (.ok c, n')) : x.Describes c ∧ n'.element = n.element := by
  simp only [build, Counters.newContext] at h
  split at h <;> rename_i hpath
  · cases h
    exact ⟨⟨rfl, hpath, rfl, rfl, ⟨x.base, rfl, rfl⟩, rfl, rfl⟩, rfl⟩
  · cases h

theorem exists_build {p : ContextPath} (h : ContextPath.parse x.path = .ok p) (n : Counters) :
    ∃ c n', x.build n = (.ok c, n') := by
  simp only [build, Counters.newContext, h]
  exact ⟨_, _, rfl⟩

end ContextDecl

namespace ElementDecl

variable {x : ElementDecl} {e e' : Element} {n n' : Counters} {serviceId : Nat} {id : ElementId}

theorem builder_renumber (x : ElementDecl) (serviceId serviceId' : Nat) :
    x.builder serviceId' = { x.builder serviceId with serviceId := serviceId' } := by
  unfold builder
  cases x.body <;> rfl

/-- The element is as declared, whatever its numbers are. -/
def Describes (x : ElementDecl) (e : Element) : Prop :=
  ∃ serviceId, (x.builder serviceId).element e.id = .ok e

theorem build_ok (h : x.build serviceId n = (.ok e, n')) :
    x.Describes e ∧ e.id = n.element ∧ n'.element = n.element + 1 := by
  unfold build Builder.build at h
  split at h <;> rename_i hbuild
  · cases h
    obtain ⟨_, _, _, _, _, _, he⟩ := Builder.element_ok hbuild
    have hid : e.id = n.element := by rw [he]
    exact ⟨⟨serviceId, by rw [hid]; exact hbuild⟩, hid, rfl⟩
  · cases h

theorem exists_build (h : (x.builder 0).element id = .ok e) (serviceId : Nat) (n : Counters) :
    ∃ e n', x.build serviceId n = (.ok e, n') := by
  have hbuild := Builder.element_renumber h serviceId n.element
  rw [← builder_renumber] at hbuild
  exact ⟨_, _, by rw [build, Builder.build, hbuild]⟩

theorem Describes.element_ok (h : x.Describes e) : ∃ name patterns details serviceId,
    e = { id := e.id, name, patterns, details, targets := Element.distinct x.contexts, rank := x.rank,
          serviceId, dynamic := false, owner := none, init := e.init } := by
  obtain ⟨serviceId, h⟩ := h
  obtain ⟨name, patterns, details, _, _, _, he⟩ := Builder.element_ok h
  refine ⟨name, patterns, details, serviceId, ?_⟩
  rw [he]
  unfold builder
  cases x.body <;> rfl

theorem Describes.original (h : x.Describes e) : e.original = e := by
  obtain ⟨_, _, _, _, he⟩ := h.element_ok
  rw [he]
  rfl

theorem Describes.targets (h : x.Describes e) : e.targets = Element.distinct x.contexts := by
  obtain ⟨_, _, _, _, he⟩ := h.element_ok
  rw [he]

theorem Describes.dynamic (h : x.Describes e) : e.dynamic = false := by
  obtain ⟨_, _, _, _, he⟩ := h.element_ok
  rw [he]

theorem Describes.agree (h : x.Describes e) (h' : x.Describes e') :
    { e' with id := e.id, serviceId := e.serviceId } = e := by
  obtain ⟨_, h⟩ := h
  obtain ⟨serviceId, h'⟩ := h'
  have hsame := Builder.element_renumber h serviceId e'.id
  rw [← builder_renumber, h'] at hsame
  rw [Except.ok.inj hsame]

end ElementDecl

namespace Declared

variable {D D' : Declared} {default : ContextId} {n n' : Counters}

/-- The declarations can be made, and refer to nothing but each other and the default context. -/
structure Checked (default : ContextId) (D : Declared) : Prop where
  contexts : ∀ name x, D.contexts.find? name = some x →
    x.name = name ∧ name ≠ default ∧ ∃ p, ContextPath.parse x.path = .ok p
  elements : ∀ key x, D.elements.find? key = some x →
    (∃ id e, (x.builder 0).element id = .ok e) ∧
      ∀ t ∈ x.contexts, t = default ∨ (D.contexts.find? t).isSome

theorem Checked.addContext {x : ContextDecl} (hD : D.Checked default)
    (h : D.addContext default n x = (.ok D', n')) : D'.Checked default := by
  unfold Declared.addContext at h
  split at h
  · cases h
  · rename_i c _ hbuild
    split at h
    · cases h
    · rename_i hname
      split at h
      · cases h
      · cases h
        refine ⟨fun name y hy => ?_, fun key y hy => ?_⟩
        · rw [OrdMap.find?_insert_eq] at hy
          split at hy
          · rename_i heq
            cases hy
            exact ⟨heq.symm, heq ▸ hname, c.path, (ContextDecl.build_ok hbuild).1.path⟩
          · exact hD.contexts name y hy
        · obtain ⟨hbuilt, htargets⟩ := hD.elements key y hy
          refine ⟨hbuilt, fun t ht => (htargets t ht).imp_right fun hsome => ?_⟩
          rw [OrdMap.find?_insert_eq]
          split
          · rfl
          · exact hsome

theorem Checked.addElement {x : ElementDecl} (hD : D.Checked default)
    (h : D.addElement default n x = (.ok D', n')) : D'.Checked default := by
  unfold Declared.addElement at h
  split at h
  · cases h
  · rename_i e _ hbuild
    split at h
    · cases h
    · rename_i htargets
      split at h
      · cases h
      · cases h
        refine ⟨hD.contexts, fun key y hy => ?_⟩
        rw [OrdMap.find?_insert_eq] at hy
        split at hy
        · cases hy
          refine ⟨?_, fun t ht => ?_⟩
          · unfold ElementDecl.build Builder.build at hbuild
            split at hbuild <;> rename_i helement
            · exact ⟨_, _, helement⟩
            · cases hbuild
          · have hfound := List.find?_eq_none.1 htargets t ht
            simpa [OrdMap.contains, or_iff_not_imp_left, ← Option.isSome_iff_ne_none] using hfound
        · exact hD.elements key y hy

theorem addAll_preserves {α : Type} {P : Declared → Prop}
    {add : Declared → Counters → α → Except ConfigError Declared × Counters}
    (hadd : ∀ D n x D' n', P D → add D n x = (.ok D', n') → P D') {xs : List α} (hD : P D)
    (h : addAll add D n xs = (.ok D', n')) : P D' := by
  induction xs generalizing D n with
  | nil =>
    cases h
    exact hD
  | cons x xs ih =>
    rw [addAll] at h
    split at h
    · rename_i heq
      exact ih (hadd _ _ _ _ _ hD heq) h
    · rename_i hfailed
      exact (hfailed _ _ h).elim

section Numbers

variable {α : Type} {add : Declared → Counters → α → Except ConfigError Declared × Counters}

def Renumbers (add : Declared → Counters → α → Except ConfigError Declared × Counters) : Prop :=
  ∀ D n x D' n', add D n x = (.ok D', n') → ∀ k, ∃ k', add D k x = (.ok D', k')

theorem renumbers_addContext (default : ContextId) : Renumbers (addContext default) := by
  intro D n x D' n' h k
  unfold addContext at h ⊢
  split at h
  · cases h
  · rename_i hbuild
    obtain ⟨c, k', hk⟩ := ContextDecl.exists_build (ContextDecl.build_ok hbuild).1.path k
    rw [hk]
    split at h
    · cases h
    · rename_i hname
      split at h
      · cases h
      · rename_i hnew
        cases h
        exact ⟨k', by simp only [if_neg hname, if_neg hnew]⟩

theorem renumbers_addElement (default : ContextId) : Renumbers (addElement default) := by
  intro D n x D' n' h k
  unfold addElement at h ⊢
  split at h
  · cases h
  · rename_i e _ hbuild
    obtain ⟨serviceId, helement⟩ := (ElementDecl.build_ok hbuild).1
    have hzero : (x.builder 0).element e.id = .ok { e with serviceId := 0 } := by
      rw [ElementDecl.builder_renumber x serviceId]
      exact Builder.element_renumber helement 0 e.id
    obtain ⟨c, k', hk⟩ := ElementDecl.exists_build hzero 0 k
    rw [hk]
    split at h
    · cases h
    · split at h
      · cases h
      · rename_i hnew
        cases h
        exact ⟨k', by simp only [if_neg hnew]⟩

theorem Renumbers.addAll (hadd : Renumbers add) {xs : List α} (h : addAll add D n xs = (.ok D', n'))
    (k : Counters) : ∃ k', Declared.addAll add D k xs = (.ok D', k') := by
  induction xs generalizing D n k with
  | nil =>
    cases h
    exact ⟨k, rfl⟩
  | cons x xs ih =>
    rw [Declared.addAll] at h
    split at h
    · rename_i heq
      obtain ⟨l, hl⟩ := hadd _ _ _ _ _ heq k
      obtain ⟨k', hk'⟩ := ih h l
      exact ⟨k', by rw [Declared.addAll, hl]; exact hk'⟩
    · rename_i hfailed
      exact (hfailed _ _ h).elim

end Numbers

end Declared

theorem Config.checked {c : Config} {n n' : Counters} {D : Declared}
    (h : c.declared n = (.ok D, n')) : D.Checked c.server.defaultContext := by
  simp only [declared] at h
  split at h
  · rename_i d _ hcontexts
    have hempty : Declared.Checked c.server.defaultContext {} := ⟨nofun, nofun⟩
    have hd : d.Checked c.server.defaultContext :=
      Declared.addAll_preserves (fun _ _ _ _ _ hD h => hD.addContext h) hempty hcontexts
    exact Declared.addAll_preserves (fun _ _ _ _ _ hD h => hD.addElement h) hd h
  · rename_i hfailed
    exact (hfailed _ _ h).elim

theorem Config.declared_renumber {c : Config} {n n' : Counters} {D : Declared}
    (h : c.declared n = (.ok D, n')) (k : Counters) :
    ∃ k', c.declared k = (.ok D, k') := by
  simp only [declared] at h ⊢
  split at h
  · rename_i hcontexts
    obtain ⟨l, hl⟩ := (Declared.renumbers_addContext c.server.defaultContext).addAll hcontexts k
    rw [hl]
    exact (Declared.renumbers_addElement c.server.defaultContext).addAll h l
  · rename_i hfailed
    exact (hfailed _ _ h).elim

end ServletContainer
