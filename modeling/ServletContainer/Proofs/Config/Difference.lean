import Mathlib.Data.List.Forall2
import ServletContainer.Proofs.Config.Declared
import ServletContainer.Proofs.Server.Rollback

/-! The batch that leads from the declarations that are online to new ones. What is made for it follows
the new declarations (`ConfigManager.diff_ok`), and to make it fails only if a declaration cannot be made
(`ConfigManager.exists_diff`). A context that was as declared is as declared anew after the changes
(`Draft.context`), and of the elements those go that were declared otherwise (`Draft.element_kept`). -/
namespace ServletContainer

section Pairs

variable {α : Type u} {β : Type v} {R : α → β → Prop} {xs : List α} {ys : List β}

theorem map_eq_map_of_forall₂ {γ : Type w} {f : α → γ} {g : β → γ} (h : List.Forall₂ R xs ys)
    (hR : ∀ x y, R x y → f x = g y) : xs.map f = ys.map g := by
  have hmap := List.forall₂_map_left_iff.2 (List.forall₂_map_right_iff.2 (h.imp hR))
  rwa [List.forall₂_eq_eq_eq] at hmap

theorem exists_right_of_rel {x : α} {o : Option β} (h : Option.Rel R (some x) o) :
    ∃ y, o = some y ∧ R x y := by
  cases h with
  | some hR => exact ⟨_, rfl, hR⟩

theorem exists_left_of_rel {o : Option α} {y : β} (h : Option.Rel R o (some y)) :
    ∃ x, o = some x ∧ R x y := by
  cases h with
  | some hR => exact ⟨_, rfl, hR⟩

theorem eq_none_of_rel_left {o : Option β} (h : Option.Rel R none o) : o = none := by
  cases h
  rfl

theorem eq_none_of_rel_right {o : Option α} (h : Option.Rel R o none) : o = none := by
  cases h
  rfl

end Pairs

namespace ConfigManager

variable {m : ConfigManager} {s u : Server} {D : Declared} {default name : ContextId} {key : String}
  {id : ElementId} {cs : List LogicalContext} {es : List (String × Element)}

section Building

theorem buildContexts_ok {xs : List ContextDecl} (h : buildContexts s xs = (.ok cs, u)) :
    List.Forall₂ ContextDecl.Describes xs cs ∧ u.counters.element = s.counters.element := by
  induction xs generalizing s cs with
  | nil =>
    cases h
    exact ⟨.nil, rfl⟩
  | cons x xs ih =>
    unfold buildContexts at h
    split at h
    · cases h
    · rename_i made counters hbuild
      obtain ⟨hmade, hcounters⟩ := ContextDecl.build_ok hbuild
      cases hrest : buildContexts { s with counters } xs with
      | mk result v =>
        rw [hrest] at h
        obtain ⟨hresult, rfl⟩ := Prod.mk.inj h
        obtain ⟨rest, rfl, rfl⟩ := exists_of_map_ok hresult
        obtain ⟨hall, helement⟩ := ih hrest
        exact ⟨.cons hmade hall, helement.trans hcounters⟩

theorem exists_buildContexts {xs : List ContextDecl}
    (h : ∀ x ∈ xs, ∃ p, ContextPath.parse x.path = .ok p) (s : Server) :
    ∃ cs u, buildContexts s xs = (.ok cs, u) := by
  induction xs generalizing s with
  | nil => exact ⟨[], s, rfl⟩
  | cons x xs ih =>
    obtain ⟨⟨p, hp⟩, hxs⟩ := List.forall_mem_cons.1 h
    obtain ⟨c, counters, hbuild⟩ := ContextDecl.exists_build hp s.counters
    obtain ⟨cs, u, hrest⟩ := ih hxs { s with counters }
    exact ⟨c :: cs, u, by rw [buildContexts, hbuild]; simp only [hrest]; rfl⟩

theorem buildElements_ok {xs : List (String × ElementDecl)} (h : buildElements s xs = (.ok es, u)) :
    List.Forall₂ (fun x e => x.1 = e.1 ∧ x.2.Describes e.2) xs es ∧
      es.map (·.2.id) = List.range' s.counters.element es.length ∧
      u.counters.element = s.counters.element + es.length := by
  induction xs generalizing s es with
  | nil =>
    cases h
    exact ⟨.nil, rfl, rfl⟩
  | cons x xs ih =>
    obtain ⟨key, x⟩ := x
    simp only [buildElements, Server.takeService] at h
    split at h
    · cases h
    · rename_i made counters hbuild
      obtain ⟨hmade, hid, hcounters⟩ := ElementDecl.build_ok hbuild
      cases hrest : buildElements { s with nextService := s.nextService + 1, counters } xs with
      | mk result v =>
        rw [hrest] at h
        obtain ⟨hresult, rfl⟩ := Prod.mk.inj h
        obtain ⟨rest, rfl, rfl⟩ := exists_of_map_ok hresult
        obtain ⟨hall, hids, helement⟩ := ih hrest
        refine ⟨.cons ⟨rfl, hmade⟩ hall, ?_, ?_⟩
        · rw [List.map_cons, hids, hid, hcounters, List.length_cons, List.range'_succ]
        · rw [helement, hcounters, List.length_cons]
          exact Nat.succ_add_eq_add_succ _ _

theorem exists_buildElements {xs : List (String × ElementDecl)}
    (h : ∀ x ∈ xs, ∃ id e, (x.2.builder 0).element id = .ok e) (s : Server) :
    ∃ es u, buildElements s xs = (.ok es, u) := by
  induction xs generalizing s with
  | nil => exact ⟨[], s, rfl⟩
  | cons x xs ih =>
    obtain ⟨key, x⟩ := x
    obtain ⟨⟨id, e, hx⟩, hxs⟩ := List.forall_mem_cons.1 h
    obtain ⟨made, counters, hbuild⟩ := ElementDecl.exists_build hx s.nextService s.counters
    obtain ⟨es, u, hrest⟩ := ih hxs { s with nextService := s.nextService + 1, counters }
    exact ⟨(key, made) :: es, u, by simp only [buildElements, Server.takeService, hbuild, hrest]; rfl⟩

end Building

section Difference

theorem mem_newContexts {x : ContextDecl} : x ∈ m.newContexts D ↔
    ∃ name, D.contexts.find? name = some x ∧
      ∀ old, m.online.contexts.find? name = some old → ¬ old.sameButRank x := by
  simp only [newContexts, OrdMap.mem_values_iff, OrdMap.find?_filter, Option.filter_eq_some_iff]
  refine exists_congr fun name => and_congr_right fun _ => ?_
  cases m.online.contexts.find? name <;> simp

theorem mem_newElements {x : ElementDecl} : (key, x) ∈ m.newElements D ↔
    D.elements.find? key = some x ∧ m.online.elements.find? key ≠ some x := by
  simp only [newElements, OrdMap.mem_entries_iff, OrdMap.find?_filter, Option.filter_eq_some_iff]
  simp

theorem mem_outdated : id ∈ (m.outdated D).values ↔
    ∃ key, m.elements.find? key = some id ∧ D.elements.find? key ≠ m.online.elements.find? key := by
  simp only [outdated, OrdMap.mem_values_iff, OrdMap.find?_filter, Option.filter_eq_some_iff]
  simp

def difference (m : ConfigManager) (D : Declared) (cs : List LogicalContext)
    (es : List (String × Element)) : List Change :=
  m.removals D ++ cs.map .addContext ++ es.map fun e => .addElement e.2

/-- What has been made of the declarations that are new. -/
structure Draft (m : ConfigManager) (s : Server) (D : Declared) (cs : List LogicalContext)
    (es : List (String × Element)) : Prop where
  contexts : List.Forall₂ ContextDecl.Describes (m.newContexts D) cs
  elements : List.Forall₂ (fun x e => x.1 = e.1 ∧ x.2.Describes e.2) (m.newElements D) es
  ids : es.map (·.2.id) = List.range' s.counters.element es.length

theorem diff_ok {changes : List Change} (h : m.diff s D = (.ok (changes, es), u)) :
    ∃ cs, m.Draft s D cs es ∧ changes = m.difference D cs es ∧
      u.counters.element = s.counters.element + es.length := by
  unfold diff at h
  split at h
  · cases h
  · rename_i cs t hcontexts
    split at h
    · cases h
    · rename_i made v helements
      cases h
      obtain ⟨hcs, hcounters⟩ := buildContexts_ok hcontexts
      obtain ⟨hes, hids, helement⟩ := buildElements_ok helements
      rw [hcounters] at hids helement
      exact ⟨cs, ⟨hcs, hes, hids⟩, rfl, helement⟩

/-- To make what is declared never fails. -/
theorem exists_diff (hD : D.Checked default) (m : ConfigManager) (s : Server) :
    ∃ changes es u, m.diff s D = (.ok (changes, es), u) := by
  have hpaths : ∀ x ∈ m.newContexts D, ∃ p, ContextPath.parse x.path = .ok p := by
    intro x hx
    obtain ⟨name, hname, _⟩ := mem_newContexts.1 hx
    exact (hD.contexts name x hname).2.2
  have hbuilders : ∀ x ∈ m.newElements D, ∃ id e, (x.2.builder 0).element id = .ok e :=
    fun x hx => (hD.elements x.1 x.2 (mem_newElements.1 hx).1).1
  obtain ⟨cs, t, hcontexts⟩ := exists_buildContexts hpaths s
  obtain ⟨es, u, helements⟩ := exists_buildElements hbuilders t
  exact ⟨_, es, u, by rw [diff, hcontexts]; simp only [helements]; rfl⟩

end Difference

section Contexts

theorem context?_contextChange {old : ContextDecl} {new : Option ContextDecl} {c : Change}
    (h : contextChange name old new = some c) : c.context? = some name ∧ c.element? = none := by
  unfold contextChange at h
  split at h
  · cases h
    exact ⟨rfl, rfl⟩
  · split at h
    · cases h
    · split at h <;> cases h <;> exact ⟨rfl, rfl⟩

theorem foldl_onContext_removals (name : ContextId) (o : Option LogicalContext) :
    (m.removals D).foldl (Change.onContext name) o =
      ((m.online.contexts.find? name).bind fun old =>
        contextChange name old (D.contexts.find? name)).elim o (Change.onContext name o) := by
  rw [removals, List.foldl_append, Change.foldl_onContext_removeElement]
  refine OrdMap.foldl_filterMap_entries
    (f := fun l old => contextChange l old (D.contexts.find? l)) (fun l old c _ hc hne o => ?_) o
  refine Change.onContext_of_ne ?_ o
  rw [(context?_contextChange hc).1]
  simpa using hne

theorem Draft.context_of_mem (h : m.Draft s D cs es) (hD : D.Checked default) {c : LogicalContext}
    (hc : c ∈ cs) : ∃ x, D.contexts.find? c.id = some x ∧
      ∀ old, m.online.contexts.find? c.id = some old → ¬ old.sameButRank x := by
  obtain ⟨x, hx, hdescribes⟩ := exists_left_of_forall₂ h.contexts hc
  obtain ⟨name, hname, hnew⟩ := mem_newContexts.1 hx
  have hid : c.id = name := hdescribes.id.trans (hD.contexts name x hname).1
  exact ⟨x, hid ▸ hname, hid ▸ hnew⟩

theorem Draft.nodup_contexts (h : m.Draft s D cs es) (hD : D.Checked default) :
    (cs.map (·.id)).Nodup := by
  rw [← map_eq_map_of_forall₂ (f := (·.name)) h.contexts fun x c hc => hc.id.symm, newContexts,
    OrdMap.values, List.map_map, List.map_congr_left (g := Prod.fst)]
  · exact OrdMap.nodup_keys _
  · intro e he
    have hname := OrdMap.mem_entries_iff.1 (List.mem_of_mem_filter he)
    exact (hD.contexts e.1 e.2 hname).1

theorem Draft.foldl_addContexts_of_new (h : m.Draft s D cs es) (hD : D.Checked default)
    {x : ContextDecl} (hx : D.contexts.find? name = some x)
    (hnew : ∀ old, m.online.contexts.find? name = some old → ¬ old.sameButRank x)
    (o : Option LogicalContext) :
    ∃ c ∈ cs, c.id = name ∧ x.Describes c ∧
      (cs.map .addContext).foldl (Change.onContext name) o = some c := by
  obtain ⟨c, hc, hdescribes⟩ := exists_right_of_forall₂ h.contexts (mem_newContexts.2 ⟨name, hx, hnew⟩)
  have hid : c.id = name := hdescribes.id.trans (hD.contexts name x hx).1
  refine ⟨c, hc, hid, hdescribes, ?_⟩
  rw [← hid]
  exact Change.foldl_onContext_addContext hc (h.nodup_contexts hD) o

theorem Draft.foldl_addContexts_of_old (h : m.Draft s D cs es) (hD : D.Checked default)
    (hold : ∀ x, D.contexts.find? name = some x →
      ∃ old, m.online.contexts.find? name = some old ∧ old.sameButRank x)
    (o : Option LogicalContext) :
    (cs.map .addContext).foldl (Change.onContext name) o = o := by
  refine Change.foldl_onContext_of_ne (fun c hc hname => ?_) o
  obtain ⟨c, hmem, rfl⟩ := List.mem_map.1 hc
  obtain rfl : c.id = name := Option.some.inj hname
  obtain ⟨x, hx, hnew⟩ := h.context_of_mem hD hmem
  obtain ⟨old, ho, hsame⟩ := hold x hx
  exact hnew old ho hsame

theorem foldl_onContext_addElements (es : List (String × Element)) (o : Option LogicalContext) :
    (es.map fun e => Change.addElement e.2).foldl (Change.onContext name) o = o := by
  have hfold := Change.foldl_onContext_addElement (j := name) (es.map (·.2)) o
  rwa [List.map_map] at hfold

theorem describes_contextChange (name : ContextId) {old x : ContextDecl} {c : LogicalContext} (hc : old.Describes c)
    (hsame : old.sameButRank x) : ∃ made, x.Describes made ∧
      (contextChange name old (some x)).elim (some c) (Change.onContext name (some c)) = some made := by
  simp only [contextChange]
  split
  · rename_i hx
    exact ⟨c, hc.of_same (ContextDecl.same_symm hx), rfl⟩
  · exact ⟨_, hc.of_sameButRank hsame, by simp [Change.onContext]⟩

theorem Draft.context (h : m.Draft s D cs es) (hD : D.Checked default) {o : Option LogicalContext}
    (ho : Option.Rel ContextDecl.Describes (m.online.contexts.find? name) o) :
    Option.Rel ContextDecl.Describes (D.contexts.find? name)
      ((m.difference D cs es).foldl (Change.onContext name) o) := by
  rw [difference, List.foldl_append, List.foldl_append, foldl_onContext_removals,
    foldl_onContext_addElements]
  cases hx : D.contexts.find? name with
  | none =>
    rw [h.foldl_addContexts_of_old hD (by simp [hx])]
    generalize m.online.contexts.find? name = old at ho
    cases ho with
    | none => exact .none
    | some => simp [contextChange, Change.onContext]
  | some x =>
    by_cases hold : ∃ old, m.online.contexts.find? name = some old ∧ old.sameButRank x
    · rw [h.foldl_addContexts_of_old hD fun y hy => by rwa [← Option.some.inj (hx.symm.trans hy)]]
      obtain ⟨old, honline, hsame⟩ := hold
      rw [honline] at ho ⊢
      obtain ⟨c, rfl, hc⟩ := exists_right_of_rel ho
      obtain ⟨made, hmade, heq⟩ := describes_contextChange name hc hsame
      rw [Option.bind_some, heq]
      exact .some hmade
    · obtain ⟨c, _, _, hdescribes, hc⟩ := h.foldl_addContexts_of_new hD hx
        (fun old honline hsame => hold ⟨old, honline, hsame⟩) (Option.elim _ o _)
      rw [hc]
      exact .some hdescribes

theorem Draft.context_of_unknown (h : m.Draft s D cs es) (hD : D.Checked default)
    (honline : m.online.contexts.find? name = none) (hname : D.contexts.find? name = none)
    (o : Option LogicalContext) :
    (m.difference D cs es).foldl (Change.onContext name) o = o := by
  rw [difference, List.foldl_append, List.foldl_append, foldl_onContext_removals,
    foldl_onContext_addElements, honline, h.foldl_addContexts_of_old hD (by simp [hname])]
  rfl

end Contexts

section Elements

theorem foldl_onElement_removals (id : ElementId) (o : Option Element) :
    (m.removals D).foldl (Change.onElement id) o = if id ∈ (m.outdated D).values then none else o := by
  rw [removals, List.foldl_append, Change.foldl_onElement_removeElement]
  refine Change.foldl_onElement_of_ne (fun c hc => ?_) _
  obtain ⟨e, _, hchange⟩ := List.mem_filterMap.1 hc
  simp [(context?_contextChange hchange).2]

theorem Draft.nodup_ids (h : m.Draft s D cs es) : ((es.map (·.2)).map (·.id)).Nodup := by
  rw [List.map_map]
  exact h.ids ▸ List.nodup_range'

theorem Draft.id_of_mem (h : m.Draft s D cs es) {e : String × Element} (he : e ∈ es) :
    s.counters.element ≤ e.2.id ∧ e.2.id < s.counters.element + es.length := by
  have hmem : e.2.id ∈ es.map (·.2.id) := List.mem_map_of_mem he
  rw [h.ids] at hmem
  exact List.mem_range'_1.1 hmem

theorem Draft.element_of_mem (h : m.Draft s D cs es) {e : Element} (he : (key, e) ∈ es) :
    ∃ x, D.elements.find? key = some x ∧ m.online.elements.find? key ≠ some x ∧ x.Describes e := by
  obtain ⟨⟨k, x⟩, hx, hk, hdescribes⟩ := exists_left_of_forall₂ h.elements he
  obtain rfl : k = key := hk
  obtain ⟨hnew, hne⟩ := mem_newElements.1 hx
  exact ⟨x, hnew, hne, hdescribes⟩

theorem Draft.exists_element (h : m.Draft s D cs es) {x : ElementDecl}
    (hx : D.elements.find? key = some x) (hne : m.online.elements.find? key ≠ some x) :
    ∃ e, (key, e) ∈ es ∧ x.Describes e := by
  obtain ⟨⟨k, e⟩, he, hk, hdescribes⟩ :=
    exists_right_of_forall₂ h.elements (mem_newElements.2 ⟨hx, hne⟩)
  obtain rfl : key = k := hk
  exact ⟨e, he, hdescribes⟩

theorem Draft.element_added (h : m.Draft s D cs es) {e : Element} (he : (key, e) ∈ es)
    (o : Option Element) : (m.difference D cs es).foldl (Change.onElement e.id) o = some e := by
  obtain ⟨x, _, _, hdescribes⟩ := h.element_of_mem he
  have hadded := Change.foldl_onElement_addElement (List.mem_map_of_mem (f := (·.2)) he) h.nodup_ids
    ((m.removals D ++ cs.map Change.addContext).foldl (Change.onElement e.id) o)
  rw [List.map_map, hdescribes.original] at hadded
  rw [difference, List.foldl_append]
  exact hadded

theorem Draft.element_kept (hid : ∀ e ∈ es, e.2.id ≠ id) (o : Option Element) :
    (m.difference D cs es).foldl (Change.onElement id) o =
      if id ∈ (m.outdated D).values then none else o := by
  rw [difference, List.foldl_append, List.foldl_append, foldl_onElement_removals,
    Change.foldl_onElement_addContext]
  refine Change.foldl_onElement_of_ne (fun c hc hsome => ?_) _
  obtain ⟨e, he, rfl⟩ := List.mem_map.1 hc
  exact hid e he (Option.some.inj hsome)

end Elements

end ConfigManager

end ServletContainer
