import ServletContainer.Proofs.Config.Difference

/-! What a manager has online and what its server holds. As long as they agree (`ConfigManager.Online`),
the batch that leads to new declarations is valid (`Online.exists_becomes`), and if it is committed they
agree again (`Online.adopt`). -/
namespace ServletContainer

/-- The deployed element of a number is as declared. -/
def Deployment.Serves (d : Deployment) (x : ElementDecl) (id : ElementId) : Prop :=
  ∃ e, d.placed id = some e ∧ e.id = id ∧ x.Describes e

namespace Deployment

variable {d m : Deployment} {cs : List LogicalContext}

theorem Becomes.find?_addContexts (h : d.Becomes (cs.map .addContext) m) {c : LogicalContext}
    (hc : c ∈ cs) : d.contexts.find? c.id = none := by
  induction cs generalizing d with
  | nil => cases hc
  | cons x cs ih =>
    obtain ⟨a, ha, h⟩ := becomes_cons.1 h
    rcases List.mem_cons.1 hc with rfl | hc
    · exact (Contexts.bind_ok (leads_of_apply ha).contexts).1
    · have hnone := ih h hc
      rw [context_of_apply ha, Change.onContext] at hnone
      split at hnone
      · cases hnone
      · exact hnone

end Deployment

namespace ConfigManager

open Deployment

variable {m : ConfigManager} {s t : Server} {D : Declared} {base : LogicalContext} {name : ContextId}
  {key : String} {id : ElementId} {cs : List LogicalContext} {es : List (String × Element)}

/-- What is online is deployed, each element under the number that is noted for it, and nothing else is
but the default context. -/
structure Online (m : ConfigManager) (base : LogicalContext) (s : Server) : Prop where
  defaultContext : s.deployment.defaultContext = base.id
  bound : s.deployment.contexts.find? base.id = some base
  reserved : m.online.contexts.find? base.id = none
  contexts : ∀ name, name ≠ base.id →
    Option.Rel ContextDecl.Describes (m.online.contexts.find? name)
      (s.deployment.contexts.find? name)
  elements : ∀ key,
    Option.Rel s.deployment.Serves (m.online.elements.find? key) (m.elements.find? key)
  injective : ∀ key key' id, m.elements.find? key = some id → m.elements.find? key' = some id →
    key = key'
  noted : ∀ id e, s.deployment.placed id = some e → ∃ key, m.elements.find? key = some id
  fresh : ∀ id e, s.deployment.placed id = some e → id < s.counters.element

namespace Online

theorem congr (h : m.Online base s) (hd : t.deployment = s.deployment)
    (hcounters : s.counters.element ≤ t.counters.element) : m.Online base t := by
  obtain ⟨hdefault, hbase, hreserved, hcontexts, helements, hinjective, hnoted, hfresh⟩ := h
  rw [← hd] at hdefault hbase hcontexts helements hnoted hfresh
  exact ⟨hdefault, hbase, hreserved, hcontexts, helements, hinjective, hnoted,
    fun id e he => (hfresh id e he).trans_le hcounters⟩

theorem not_outdated (h : m.Online base s) (hid : m.elements.find? key = some id)
    (hsame : D.elements.find? key = m.online.elements.find? key) : id ∉ (m.outdated D).values := by
  intro hmem
  obtain ⟨key', hid', hne⟩ := mem_outdated.1 hmem
  rw [h.injective key key' id hid hid'] at hsame
  exact hne hsame

theorem placed_of_noted (h : m.Online base s) (hid : m.elements.find? key = some id) :
    ∃ x e, m.online.elements.find? key = some x ∧ s.deployment.placed id = some e ∧ e.id = id ∧
      x.Describes e := by
  have hrel := h.elements key
  rw [hid] at hrel
  obtain ⟨x, hx, e, he⟩ := exists_left_of_rel hrel
  exact ⟨x, e, hx, he⟩

end Online

section Adopting

theorem Draft.nodup_keys (h : m.Draft s D cs es) : (es.map (·.1)).Nodup := by
  rw [← map_eq_map_of_forall₂ (f := Prod.fst) h.elements fun x e hx => hx.1]
  exact OrdMap.nodup_keys _

theorem Draft.find?_adopt_of_mem (h : m.Draft s D cs es) {e : Element} (he : (key, e) ∈ es) :
    (m.adopt D es).elements.find? key = some e.id := by
  have hfind (kept : OrdMap String ElementId) := OrdMap.find?_foldl_insert_of_mem (m := kept)
    (f := Prod.fst) (g := fun e : String × Element => e.2.id) h.nodup_keys he
  exact hfind _

theorem find?_adopt_of_ne (h : ∀ e ∈ es, e.1 ≠ key) : (m.adopt D es).elements.find? key =
    (m.elements.find? key).filter fun _ =>
      D.elements.find? key = m.online.elements.find? key :=
  (OrdMap.find?_foldl_insert_of_ne h).trans (OrdMap.find?_filter ..)

theorem Draft.find?_adopt (h : m.Draft s D cs es) (hid : (m.adopt D es).elements.find? key = some id) :
    (∃ e, (key, e) ∈ es ∧ e.id = id) ∨
      m.elements.find? key = some id ∧ D.elements.find? key = m.online.elements.find? key := by
  by_cases hmem : ∃ e, (key, e) ∈ es
  · obtain ⟨e, he⟩ := hmem
    rw [h.find?_adopt_of_mem he] at hid
    exact .inl ⟨e, he, Option.some.inj hid⟩
  · have hnew : ∀ e ∈ es, e.1 ≠ key := by
      rintro ⟨k, e⟩ he rfl
      exact hmem ⟨e, he⟩
    rw [find?_adopt_of_ne hnew, Option.filter_eq_some_iff] at hid
    exact .inr ⟨hid.1, by simpa using hid.2⟩

theorem Draft.find?_adopt_of_same (h : m.Draft s D cs es)
    (hsame : D.elements.find? key = m.online.elements.find? key) :
    (m.adopt D es).elements.find? key = m.elements.find? key := by
  have hold : ∀ e ∈ es, e.1 ≠ key := by
    rintro ⟨k, e⟩ he rfl
    obtain ⟨x, hx, hne, _⟩ := h.element_of_mem he
    exact hne (hsame ▸ hx)
  rw [find?_adopt_of_ne hold]
  cases m.elements.find? key <;> simp [hsame]

namespace Online

variable {default : ContextId}

theorem placed_of_same (h : m.Online base s) (hdraft : m.Draft s D cs es)
    (ht : s.deployment.Traces (m.difference D cs es) t.deployment)
    (hid : m.elements.find? key = some id)
    (hsame : D.elements.find? key = m.online.elements.find? key) :
    t.deployment.placed id = s.deployment.placed id := by
  obtain ⟨_, e, _, he, _⟩ := h.placed_of_noted hid
  rw [ht.placed, Draft.element_kept, if_neg (h.not_outdated hid hsame)]
  exact fun x hx => ((h.fresh id e he).trans_le (hdraft.id_of_mem hx).1).ne'

theorem elements_adopt (h : m.Online base s) (hdraft : m.Draft s D cs es)
    (ht : s.deployment.Traces (m.difference D cs es) t.deployment) (key : String) :
    Option.Rel t.deployment.Serves (D.elements.find? key) ((m.adopt D es).elements.find? key) := by
  by_cases hsame : D.elements.find? key = m.online.elements.find? key
  · rw [hdraft.find?_adopt_of_same hsame, hsame]
    cases hid : m.elements.find? key with
    | none =>
      have hrel := h.elements key
      rw [hid] at hrel
      rw [eq_none_of_rel_right hrel]
      exact .none
    | some id =>
      obtain ⟨x, e, hx, he⟩ := h.placed_of_noted hid
      rw [hx]
      exact .some ⟨e, h.placed_of_same hdraft ht hid hsame ▸ he⟩
  · cases hx : D.elements.find? key with
    | none =>
      have hgone : ∀ e ∈ es, e.1 ≠ key := by
        rintro ⟨k, e⟩ he rfl
        obtain ⟨x, hx', _⟩ := hdraft.element_of_mem he
        cases hx.symm.trans hx'
      rw [find?_adopt_of_ne hgone]
      simp [hsame]
    | some x =>
      obtain ⟨e, he, hdescribes⟩ := hdraft.exists_element hx (hx ▸ Ne.symm hsame)
      rw [hdraft.find?_adopt_of_mem he]
      exact .some ⟨e, by rw [ht.placed, hdraft.element_added he], rfl, hdescribes⟩

theorem injective_adopt (h : m.Online base s) (hdraft : m.Draft s D cs es) (key key' : String)
    (id : ElementId) (hid : (m.adopt D es).elements.find? key = some id)
    (hid' : (m.adopt D es).elements.find? key' = some id) : key = key' := by
  have hold {k : String} {e : Element} {k' : String} (he : (k, e) ∈ es)
      (hnoted : m.elements.find? k' = some e.id) : False := by
    obtain ⟨_, f, _, hf, _⟩ := h.placed_of_noted hnoted
    exact absurd (h.fresh e.id f hf) (hdraft.id_of_mem he).1.not_gt
  rcases hdraft.find?_adopt hid with ⟨e, he, rfl⟩ | ⟨hnoted, _⟩ <;>
    rcases hdraft.find?_adopt hid' with ⟨f, hf, hfe⟩ | ⟨hnoted', _⟩
  · have hids := hdraft.nodup_ids
    rw [List.map_map] at hids
    exact congrArg Prod.fst (List.inj_on_of_nodup_map hids he hf hfe.symm)
  · exact (hold he hnoted').elim
  · exact (hold hf (hfe ▸ hnoted)).elim
  · exact h.injective key key' id hnoted hnoted'

/-- What is deployed in the end was made for the batch, or is noted for a declaration that stayed the
same. -/
theorem placed_adopt (h : m.Online base s) (hdraft : m.Draft s D cs es)
    (ht : s.deployment.Traces (m.difference D cs es) t.deployment) {e : Element}
    (he : t.deployment.placed id = some e) :
    (∃ key, (m.adopt D es).elements.find? key = some id) ∧
      id < s.counters.element + es.length := by
  rw [ht.placed] at he
  by_cases hmade : ∃ x ∈ es, x.2.id = id
  · obtain ⟨⟨key, x⟩, hx, rfl⟩ := hmade
    exact ⟨⟨key, hdraft.find?_adopt_of_mem hx⟩, (hdraft.id_of_mem hx).2⟩
  · rw [Draft.element_kept fun x hx hid => hmade ⟨x, hx, hid⟩] at he
    split at he
    · cases he
    · rename_i hkept
      obtain ⟨key, hid⟩ := h.noted id e he
      have hsame : D.elements.find? key = m.online.elements.find? key := by
        by_contra hne
        exact hkept (mem_outdated.2 ⟨key, hid, hne⟩)
      exact ⟨⟨key, (hdraft.find?_adopt_of_same hsame).trans hid⟩,
        (h.fresh id e he).trans_le (Nat.le_add_right ..)⟩

/-- Once the batch is committed, the new declarations are what is online. -/
theorem adopt (h : m.Online base s) (hD : D.Checked default) (hdraft : m.Draft s D cs es)
    (hbecomes : ∃ d, s.deployment.Becomes (m.difference D cs es) d)
    (ht : s.deployment.Traces (m.difference D cs es) t.deployment)
    (hdefault : t.deployment.defaultContext = s.deployment.defaultContext)
    (hcounters : s.counters.element + es.length ≤ t.counters.element) :
    (m.adopt D es).Online base t := by
  -- if the default context were declared, the batch would bind it a second time
  have hreserved : D.contexts.find? base.id = none := by
    cases hx : D.contexts.find? base.id with
    | none => rfl
    | some x =>
      obtain ⟨c, hc, hid, _⟩ := hdraft.foldl_addContexts_of_new hD hx (by simp [h.reserved]) none
      obtain ⟨d, hd⟩ := hbecomes
      obtain ⟨b, hb, _⟩ := becomes_append.1 hd
      obtain ⟨a, ha, hb⟩ := becomes_append.1 hb
      have hfree := hb.find?_addContexts hc
      rw [ha.traces.context, foldl_onContext_removals, hid, h.reserved, h.bound] at hfree
      cases hfree
  exact {
    defaultContext := hdefault.trans h.defaultContext
    bound := by
      rw [ht.context, hdraft.context_of_unknown hD h.reserved hreserved]
      exact h.bound
    reserved := hreserved
    contexts := fun name hname => by
      rw [ht.context]
      exact hdraft.context hD (h.contexts name hname)
    elements := h.elements_adopt hdraft ht
    injective := h.injective_adopt hdraft
    noted := fun id e he => (h.placed_adopt hdraft ht he).1
    fresh := fun id e he => (h.placed_adopt hdraft ht he).2.trans_le hcounters }

end Online

end Adopting

section Validity

variable {d : Deployment}

theorem Online.exists_removeElements (h : m.Online base s) (D : Declared) :
    ∃ a, s.deployment.Becomes ((m.outdated D).values.map .removeElement) a := by
  have hnodup : (m.outdated D).values.Nodup := by
    rw [OrdMap.values, List.nodup_map_iff_inj_on (List.Nodup.of_map _ (OrdMap.nodup_keys _))]
    rintro ⟨key, id⟩ hmem ⟨key', id'⟩ hmem' (rfl : id = id')
    rw [OrdMap.mem_entries_iff, outdated, OrdMap.find?_filter, Option.filter_eq_some_iff] at hmem hmem'
    rw [h.injective key key' id hmem.1 hmem'.1]
  refine exists_becomes_map (k := id) hnodup fun as id a hid has ha => exists_removeElement ?_
  obtain ⟨key, hnoted, _⟩ := mem_outdated.1 hid
  obtain ⟨_, e, _, he, _⟩ := h.placed_of_noted hnoted
  rw [ha.traces.placed, Change.foldl_onElement_removeElement, if_neg fun hmem => has id hmem rfl, he]
  exact Option.some_ne_none e

theorem exists_contextChange {x : LogicalContext} {old : ContextDecl} {new : Option ContextDecl}
    {c : Change} (hbound : d.contexts.find? name = some x) (h : contextChange name old new = some c) :
    ∃ a, d.apply c = .ok a := by
  unfold contextChange at h
  split at h
  · cases h
    exact exists_removeContext hbound
  · split at h
    · cases h
    · split at h <;> cases h
      · exact exists_updateRank hbound
      · exact exists_removeContext hbound

theorem exists_contextChanges (h : ∀ name old, m.online.contexts.find? name = some old →
      ∃ c, d.contexts.find? name = some c) (D : Declared) :
    ∃ a, d.Becomes (m.online.contexts.entries.filterMap fun (name, old) =>
      contextChange name old (D.contexts.find? name)) a := by
  refine exists_becomes_filterMap (k := Prod.fst) (List.pairwise_map.1 m.online.contexts.nodup_keys)
    fun as ⟨name, old⟩ c a hmem has hc ha => ?_
  obtain ⟨x, hx⟩ := h name old (OrdMap.mem_entries_iff.1 hmem)
  have hbound : a.contexts.find? name = some x := by
    rw [ha.traces.context, Change.foldl_onContext_of_ne, hx]
    intro y hy hname
    obtain ⟨e, he, hchange⟩ := List.mem_filterMap.1 hy
    rw [(context?_contextChange hchange).1] at hname
    exact has e he (Option.some.inj hname)
  exact exists_contextChange hbound hc

theorem exists_addContexts (hnodup : (cs.map (·.id)).Nodup)
    (h : ∀ c ∈ cs, d.contexts.find? c.id = none) : ∃ a, d.Becomes (cs.map .addContext) a := by
  have hdistinct := List.pairwise_map.1 hnodup
  refine exists_becomes_map hdistinct fun as c a hc has ha => exists_addContext ?_
  rw [ha.traces.context, Change.foldl_onContext_of_ne, h c hc]
  intro y hy hname
  obtain ⟨x, hx, rfl⟩ := List.mem_map.1 hy
  exact has x hx (Option.some.inj hname)

theorem exists_addElements (hnodup : ((es.map (·.2)).map (·.id)).Nodup)
    (h : ∀ e ∈ es, d.placed e.2.id = none)
    (ht : ∀ e ∈ es, ∀ t ∈ e.2.targets, ∃ c, d.contexts.find? t = some c) :
    ∃ a, d.Becomes (es.map fun e => .addElement e.2) a := by
  have hdistinct := List.pairwise_map.1 (List.pairwise_map.1 hnodup)
  refine exists_becomes_map hdistinct fun as e a he has ha => exists_addElement ?_ fun t hmem => ?_
  · rw [ha.traces.placed, Change.foldl_onElement_of_ne, h e he]
    intro y hy hid
    obtain ⟨x, hx, rfl⟩ := List.mem_map.1 hy
    exact has x hx (Option.some.inj hid)
  · rw [ha.traces.context, foldl_onContext_addElements]
    exact ht e he t hmem

theorem Online.exists_context (h : m.Online base s) {old : ContextDecl}
    (hold : m.online.contexts.find? name = some old) :
    ∃ c, s.deployment.contexts.find? name = some c := by
  have hname : name ≠ base.id := by
    rintro rfl
    cases h.reserved.symm.trans hold
  have hrel := h.contexts name hname
  rw [hold] at hrel
  obtain ⟨c, hc, _⟩ := exists_right_of_rel hrel
  exact ⟨c, hc⟩

theorem Online.context_removals (h : m.Online base s) (hD : D.Checked base.id)
    (hdraft : m.Draft s D cs es) {c : LogicalContext} (hc : c ∈ cs) :
    (m.removals D).foldl (Change.onContext c.id) (s.deployment.contexts.find? c.id) = none := by
  obtain ⟨x, hx, hnew⟩ := hdraft.context_of_mem hD hc
  have hrel := h.contexts c.id (hD.contexts c.id x hx).2.1
  rw [foldl_onContext_removals, hx]
  cases hold : m.online.contexts.find? c.id with
  | none =>
    rw [hold] at hrel
    exact eq_none_of_rel_left hrel
  | some old =>
    have hrank : ¬ old.sameButRank x := hnew old hold
    have hsame : ¬ x.same old := fun hsame => hrank (ContextDecl.sameButRank_of_same hsame)
    simp [contextChange, hrank, hsame, Change.onContext]

theorem Online.bound_difference (h : m.Online base s) (hD : D.Checked base.id)
    (hdraft : m.Draft s D cs es) (hname : name = base.id ∨ (D.contexts.find? name).isSome) :
    ∃ c, (m.difference D cs es).foldl (Change.onContext name) (s.deployment.contexts.find? name) =
      some c := by
  rcases hname with rfl | hsome
  · have hreserved : D.contexts.find? base.id = none :=
      Option.eq_none_iff_forall_ne_some.2 fun x hx => (hD.contexts base.id x hx).2.1 rfl
    exact ⟨base, by rw [hdraft.context_of_unknown hD h.reserved hreserved, h.bound]⟩
  · obtain ⟨x, hx⟩ := Option.isSome_iff_exists.1 hsome
    have hrel := hdraft.context hD (h.contexts name (hD.contexts name x hx).2.1)
    rw [hx] at hrel
    obtain ⟨c, hc, _⟩ := exists_right_of_rel hrel
    exact ⟨c, hc⟩

/-- The batch is valid if the new declarations were checked for the default context. -/
theorem Online.exists_becomes (h : m.Online base s) (hD : D.Checked base.id)
    (hdraft : m.Draft s D cs es) : ∃ d, s.deployment.Becomes (m.difference D cs es) d := by
  obtain ⟨a₁, h₁⟩ := h.exists_removeElements D
  have hcontexts₁ (name : ContextId) : a₁.contexts.find? name = s.deployment.contexts.find? name := by
    rw [h₁.traces.context, Change.foldl_onContext_removeElement]
  obtain ⟨a₂, h₂⟩ := exists_contextChanges (d := a₁) (m := m)
    (fun name old hold => hcontexts₁ name ▸ h.exists_context hold) D
  have hremovals : s.deployment.Becomes (m.removals D) a₂ := becomes_append.2 ⟨a₁, h₁, h₂⟩
  obtain ⟨a₃, h₃⟩ := exists_addContexts (d := a₂) (hdraft.nodup_contexts hD) (fun c hc =>
    (hremovals.traces.context c.id).trans (h.context_removals hD hdraft hc))
  have hcontexts : s.deployment.Becomes (m.removals D ++ cs.map .addContext) a₃ :=
    becomes_append.2 ⟨a₂, hremovals, h₃⟩
  have hnew : ∀ e ∈ es, a₃.placed e.2.id = none := by
    intro e he
    have hunused : s.deployment.placed e.2.id = none :=
      Option.eq_none_iff_forall_ne_some.2 fun x hx =>
        absurd (h.fresh e.2.id x hx) (hdraft.id_of_mem he).1.not_gt
    rw [hcontexts.traces.placed, List.foldl_append, foldl_onElement_removals,
      Change.foldl_onElement_addContext, hunused, ite_self]
  have htargets : ∀ e ∈ es, ∀ t ∈ e.2.targets, ∃ c, a₃.contexts.find? t = some c := by
    intro e he t hmem
    obtain ⟨x, hx, _, hdescribes⟩ := hdraft.element_of_mem he
    rw [hdescribes.targets, Element.mem_distinct] at hmem
    obtain ⟨c, hc⟩ := h.bound_difference hD hdraft ((hD.elements e.1 x hx).2 t hmem)
    rw [difference, List.foldl_append, foldl_onContext_addElements] at hc
    exact ⟨c, (hcontexts.traces.context t).trans hc⟩
  obtain ⟨d, h₄⟩ := exists_addElements hdraft.nodup_ids hnew htargets
  exact ⟨d, becomes_append.2 ⟨a₃, hcontexts, h₄⟩⟩

end Validity

end ConfigManager

end ServletContainer
