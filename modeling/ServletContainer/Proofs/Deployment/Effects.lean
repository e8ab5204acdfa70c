import ServletContainer.Proofs.Deployment.Listing
import ServletContainer.Proofs.Deployment.Served
import ServletContainer.Proofs.Engine.Mounts

/-! The effects that lead from one deployment to another. -/
namespace ServletContainer

namespace Deployment

variable {d before after : Deployment} {refresh : OrdSet ContextPath} {id : ElementId}
  {p : ContextPath} {f : Effect}

section Members

theorem mem_enabledOnlyIn {other : Deployment} {replaced : Bool} :
    p ∈ d.enabledOnlyIn other replaced id ↔
      p ∈ (d.enabledIn id).elems ∧ (replaced ∨ p ∉ (other.enabledIn id).elems) := by
  simp [enabledOnlyIn, ← OrdSet.contains_iff]

theorem mem_switchEffects : f ∈ switchEffects before after id ↔
    (∃ s, before.elements.find? id = some s ∧
      ∃ p ∈ before.enabledOnlyIn after (isReplaced before after id) id,
        f = .deactivate s.element p (before.contextFor s.element p)) ∨
    ∃ s, after.elements.find? id = some s ∧
      ∃ p ∈ after.enabledOnlyIn before (isReplaced before after id) id,
        f = .activate s.element p (after.contextFor s.element p) := by
  simp only [switchEffects, List.mem_append]
  cases before.elements.find? id <;> cases after.elements.find? id <;>
    simp [List.mem_map, eq_comm]

theorem pairwise_effects (before after : Deployment) (refresh : OrdSet ContextPath) :
    (effects before after refresh).Pairwise fun f g => f.stage ≤ g.stage :=
  (pairwise_sortBy (fun f g => by simpa using Nat.le_total f.stage g.stage)
    (fun f g h hfg hgh => by simp at *; omega) _).imp fun h => by simpa using h

theorem eq_of_perm_of_pairwise {fs gs : List Effect} (hperm : fs.Perm gs)
    (hfs : fs.Pairwise fun f g => f.stage ≤ g.stage) (hgs : gs.Pairwise fun f g => f.stage < g.stage) :
    fs = gs := by
  have hstages : (gs.map Effect.stage).Nodup := List.pairwise_map.2 (hgs.imp ne_of_lt)
  refine hperm.eq_of_pairwise (fun f g hf hg hfg hgf => ?_) hfs (hgs.imp le_of_lt)
  exact List.inj_on_of_nodup_map hstages (hperm.mem_iff.1 hf) hg (le_antisymm hfg hgf)

theorem createPhysical_mem_effects : .createPhysical p ∈ effects before after refresh ↔
    after.contexts.physical.contains p ∧ before.contexts.physical.contains p = false := by
  simp [effects, mem_switchEffects, Contexts.paths, OrdMap.mem_keys_iff, OrdMap.contains,
    Option.isSome_iff_exists]

theorem destroyPhysical_mem_effects : .destroyPhysical p ∈ effects before after refresh ↔
    before.contexts.physical.contains p ∧ after.contexts.physical.contains p = false := by
  simp [effects, mem_switchEffects, Contexts.paths, OrdMap.mem_keys_iff, OrdMap.contains,
    Option.isSome_iff_exists]

theorem bindContext_mem_effects {c : LogicalContext} :
    .bindContext c ∈ effects before after refresh ↔
      (∃ id, after.contexts.find? id = some c) ∧ isMoved before c := by
  simp [effects, mem_switchEffects, OrdMap.mem_values_iff, Contexts.find?]

theorem unbindContext_mem_effects {id : ContextId} :
    .unbindContext id p ∈ effects before after refresh ↔
      ∃ c, ((∃ i, before.contexts.find? i = some c) ∧ isMoved after c) ∧ c.id = id ∧ c.path = p := by
  simp [effects, mem_switchEffects, OrdMap.mem_values_iff, Contexts.find?]

theorem mem_switched : f ∈ (idsOf before after).flatMap (switchEffects before after) ↔
    ∃ id, f ∈ switchEffects before after id := by
  rw [List.mem_flatMap]
  refine exists_congr fun id => and_iff_right_of_imp fun h => ?_
  rcases mem_switchEffects.1 h with ⟨s, hs, _⟩ | ⟨s, hs, _⟩
  · exact mem_idsOf.2 (.inl ⟨s, hs⟩)
  · exact mem_idsOf.2 (.inr ⟨s, hs⟩)

theorem activate_mem_effects {e : Element} {c : Option LogicalContext} :
    .activate e p c ∈ effects before after refresh ↔
      ∃ id s, after.elements.find? id = some s ∧
        p ∈ after.enabledOnlyIn before (isReplaced before after id) id ∧
        e = s.element ∧ c = after.contextFor s.element p := by
  have h : .activate e p c ∈ effects before after refresh ↔
      ∃ id, .activate e p c ∈ switchEffects before after id := by
    rw [← mem_switched]
    simp [effects]
  rw [h]
  simp [mem_switchEffects]

theorem deactivate_mem_effects {e : Element} {c : Option LogicalContext} :
    .deactivate e p c ∈ effects before after refresh ↔
      ∃ id s, before.elements.find? id = some s ∧
        p ∈ before.enabledOnlyIn after (isReplaced before after id) id ∧
        e = s.element ∧ c = before.contextFor s.element p := by
  have h : .deactivate e p c ∈ effects before after refresh ↔
      ∃ id, .deactivate e p c ∈ switchEffects before after id := by
    rw [← mem_switched]
    simp [effects]
  rw [h]
  simp [mem_switchEffects]

theorem updateFilters_mem_effects {fs : List Element} :
    .updateFilters p fs ∈ effects before after refresh ↔
      fs = after.enabledFilters p ∧ after.contexts.physical.contains p ∧
        (p ∈ refresh.elems ∨
          ∃ f, (∃ id, f ∈ switchEffects before after id) ∧ filterPath? f = some p) := by
  have hno : .updateFilters p fs ∉ (idsOf before after).flatMap (switchEffects before after) := by
    simp [mem_switchEffects]
  simp only [← mem_switched]
  simp only [effects, mem_sortBy, List.mem_append, List.mem_map, List.mem_filter, OrdSet.mem_union,
    OrdSet.mem_ofList, List.mem_filterMap, hno, reduceCtorEq, and_false, exists_false, false_or,
    Effect.updateFilters.injEq]
  constructor
  · rintro ⟨_, ⟨h, hp⟩, rfl, rfl⟩
    exact ⟨rfl, hp, h⟩
  · rintro ⟨rfl, hp, h⟩
    exact ⟨p, ⟨h, hp⟩, rfl, rfl⟩

end Members

section Mounts

/-- Elements are deployed under their own numbers, and enabled only where arbitrating everything
enables them; what is bound to each mount is as it should be. -/
structure Coherent (d : Deployment) : Prop where
  keyed : d.Keyed
  sound : d.Sound
  wellFormed : d.contexts.WellFormed

theorem coherent_empty (policy : Policy) (context : ContextId) :
    Coherent ⟨policy, context, {}, ∅, ∅, 1⟩ :=
  ⟨fun _ _ h => (by cases h), fun _ => .inl rfl, .empty⟩

theorem Commits.coherent {cs : List Change} (h : before.Commits cs after) (hd : before.Coherent) :
    after.Coherent :=
  ⟨h.keyed hd.keyed, h.sound hd.keyed hd.sound, h.wellFormed hd.wellFormed⟩

/-- What belongs into a mount. -/
def occupancy (d : Deployment) (p : ContextPath) : Occupancy where
  contexts := .ofList ((d.contexts.boundAt p).map (·.id))
  elements := .ofList ((d.enabledAt p).map (·.id))
  filters := (d.enabledFilters p).map (·.id)

def mounts (d : Deployment) : OrdMap ContextPath Occupancy :=
  d.contexts.physical.mapWithKey fun p _ => d.occupancy p

theorem find?_mounts : d.mounts.find? p = (d.contexts.physical.find? p).map fun _ => d.occupancy p :=
  OrdMap.find?_mapWithKey ..

theorem isSome_find?_mounts : (d.mounts.find? p).isSome = d.contexts.physical.contains p := by
  rw [find?_mounts, Option.isSome_map, OrdMap.contains]

theorem Coherent.mem_contexts (hd : d.Coherent) {id : ContextId} :
    id ∈ (d.occupancy p).contexts.elems ↔ ∃ c, d.contexts.find? id = some c ∧ c.path = p := by
  simp only [occupancy, OrdSet.mem_ofList, List.mem_map, hd.wellFormed.mem_boundAt]
  constructor
  · rintro ⟨c, ⟨hc, hp⟩, rfl⟩
    exact ⟨c, hc, hp⟩
  · rintro ⟨c, hc, hp⟩
    obtain rfl := hd.wellFormed.keyed id c hc
    exact ⟨c, ⟨hc, hp⟩, rfl⟩

theorem Coherent.mem_elements (hd : d.Coherent) :
    id ∈ (d.occupancy p).elements.elems ↔ p ∈ (d.enabledIn id).elems := by
  simp only [occupancy, OrdSet.mem_ofList, List.mem_map, mem_enabledAt, mem_enabledIn]
  constructor
  · rintro ⟨_, ⟨i, s, hs, hp, rfl⟩, rfl⟩
    exact ⟨s, hd.keyed i s hs ▸ hs, hp⟩
  · rintro ⟨s, hs, hp⟩
    exact ⟨s.element, ⟨id, s, hs, hp, rfl⟩, hd.keyed id s hs⟩

theorem contains_of_mem_boundAt {c : LogicalContext} (h : c ∈ d.contexts.boundAt p) :
    d.contexts.physical.contains p := by
  unfold Contexts.boundAt at h
  rw [OrdMap.contains]
  cases hp : d.contexts.physical.find? p with
  | none => simp [hp] at h
  | some x => rfl

theorem Coherent.contextFor_of_enabled {s : Deployed} (hd : d.Coherent)
    (hs : d.elements.find? id = some s) (hp : p ∈ (d.enabledIn id).elems) :
    ∃ c, d.contextFor s.element p = some c ∧ c ∈ d.contexts.boundAt p := by
  rw [enabledIn_of_find? hs] at hp
  exact contextFor_of_mem hd.wellFormed (hd.sound.mem_physicalOf hd.keyed hs hp)

theorem Coherent.contains_of_enabled (hd : d.Coherent) (hp : p ∈ (d.enabledIn id).elems) :
    d.contexts.physical.contains p := by
  obtain ⟨s, hs, _⟩ := mem_enabledIn.1 hp
  obtain ⟨c, _, hc⟩ := hd.contextFor_of_enabled hs hp
  exact contains_of_mem_boundAt hc

theorem Coherent.getD_mounts (hd : d.Coherent) (p : ContextPath) :
    (d.mounts.find? p).getD {} = d.occupancy p := by
  rw [find?_mounts]
  cases hp : d.contexts.physical.find? p with
  | some x => rfl
  | none =>
    have hcontexts : d.contexts.boundAt p = [] := by simp [Contexts.boundAt, hp]
    have henabled : d.enabledAt p = [] := by
      refine List.eq_nil_iff_forall_not_mem.2 fun e he => ?_
      obtain ⟨id, s, hs, hsp, _⟩ := mem_enabledAt.1 he
      have := hd.contains_of_enabled (mem_enabledIn.2 ⟨s, hs, hsp⟩)
      simp [OrdMap.contains, hp] at this
    rw [occupancy, hcontexts, enabledFilters, henabled]
    rfl

end Mounts

section Leading

theorem isMoved_eq_false {c : LogicalContext} : isMoved d c = false ↔
    ∃ o, d.contexts.find? c.id = some o ∧ o.rank = c.rank ∧ o.path = c.path := by
  unfold isMoved
  cases d.contexts.find? c.id <;> simp

theorem isMoved_iff {c : LogicalContext} : isMoved d c ↔
    ∀ o, d.contexts.find? c.id = some o → ¬ (o.rank = c.rank ∧ o.path = c.path) := by
  rw [← Bool.not_eq_false, isMoved_eq_false]
  exact not_exists.trans (forall_congr' fun o => not_and)

/-- A context that is bound at a path afterwards was bound there anew, or was there and stayed. -/
theorem bound_after_iff {id : ContextId} (hb : before.contexts.WellFormed)
    (ha : after.contexts.WellFormed) :
    ((∃ f ∈ effects before after refresh, ∃ c, f = .bindContext c ∧ c.id = id ∧ c.path = p) ∨
        (∃ c, before.contexts.find? id = some c ∧ c.path = p) ∧
          ∀ f ∈ effects before after refresh, ¬ f = .unbindContext id p) ↔
      ∃ c, after.contexts.find? id = some c ∧ c.path = p := by
  constructor
  · rintro (⟨_, hf, c, rfl, rfl, rfl⟩ | ⟨⟨c, hc, rfl⟩, hstays⟩)
    · obtain ⟨⟨i, hc⟩, _⟩ := bindContext_mem_effects.1 hf
      exact ⟨c, ha.keyed i c hc ▸ hc, rfl⟩
    · obtain rfl := hb.keyed id c hc
      have hmoved : isMoved after c = false := Bool.eq_false_of_not_eq_true fun h =>
        hstays _ (unbindContext_mem_effects.2 ⟨c, ⟨⟨_, hc⟩, h⟩, rfl, rfl⟩) rfl
      obtain ⟨o, ho, _, hpath⟩ := isMoved_eq_false.1 hmoved
      exact ⟨o, ho, hpath⟩
  · rintro ⟨c, hc, rfl⟩
    obtain rfl := ha.keyed id c hc
    cases hmoved : isMoved before c with
    | true => exact .inl ⟨_, bindContext_mem_effects.2 ⟨⟨_, hc⟩, hmoved⟩, c, rfl, rfl, rfl⟩
    | false =>
      obtain ⟨o, ho, hrank, hpath⟩ := isMoved_eq_false.1 hmoved
      refine .inr ⟨⟨o, ho, hpath⟩, ?_⟩
      rintro _ hf rfl
      obtain ⟨x, ⟨⟨i, hx⟩, hxm⟩, hid, _⟩ := unbindContext_mem_effects.1 hf
      rw [← hb.keyed i x hx, hid, ho] at hx
      cases hx
      have hnot : isMoved after o = false := isMoved_eq_false.2 ⟨c, hid ▸ hc, hrank.symm, hpath.symm⟩
      exact absurd hxm (by simp [hnot])

theorem Keyed.exists_switched_iff {other : Deployment} {replaced : ElementId → Bool} {fs : List Effect}
    {mk : Element → Option LogicalContext → Effect} (hd : d.Keyed)
    (hfs : ∀ e c, mk e c ∈ fs ↔ ∃ i s, d.elements.find? i = some s ∧
      p ∈ d.enabledOnlyIn other (replaced i) i ∧ e = s.element ∧ c = d.contextFor s.element p) :
    (∃ f ∈ fs, ∃ e c, f = mk e c ∧ e.id = id) ↔ p ∈ d.enabledOnlyIn other (replaced id) id := by
  constructor
  · rintro ⟨_, hf, e, c, rfl, rfl⟩
    obtain ⟨i, s, hs, hp, rfl, _⟩ := (hfs e c).1 hf
    exact (hd i s hs).symm ▸ hp
  · intro h
    obtain ⟨s, hs, _⟩ := mem_enabledIn.1 (mem_enabledOnlyIn.1 h).1
    exact ⟨_, (hfs _ _).2 ⟨id, s, hs, h, rfl, rfl⟩, _, _, rfl, hd id s hs⟩

theorem exists_activate_iff (ha : after.Keyed) :
    (∃ f ∈ effects before after refresh, ∃ e c, f = .activate e p c ∧ e.id = id) ↔
      p ∈ after.enabledOnlyIn before (isReplaced before after id) id :=
  ha.exists_switched_iff fun _ _ => activate_mem_effects

theorem exists_deactivate_iff (hb : before.Keyed) :
    (∃ f ∈ effects before after refresh, ∃ e c, f = .deactivate e p c ∧ e.id = id) ↔
      p ∈ before.enabledOnlyIn after (isReplaced before after id) id :=
  hb.exists_switched_iff fun _ _ => deactivate_mem_effects

/-- An element that is enabled in a mount afterwards was switched on there, or was enabled there and
was not switched off. -/
theorem enabled_after_iff (hb : before.Keyed) (ha : after.Keyed) :
    ((∃ f ∈ effects before after refresh, ∃ e c, f = .activate e p c ∧ e.id = id) ∨
        p ∈ (before.enabledIn id).elems ∧
          ∀ f ∈ effects before after refresh, ¬ ∃ e c, f = .deactivate e p c ∧ e.id = id) ↔
      p ∈ (after.enabledIn id).elems := by
  have hoff : (∀ f ∈ effects before after refresh, ¬ ∃ e c, f = .deactivate e p c ∧ e.id = id) ↔
      ¬ p ∈ before.enabledOnlyIn after (isReplaced before after id) id := by
    simpa only [not_exists, not_and] using not_congr (exists_deactivate_iff hb)
  rw [exists_activate_iff ha, hoff, mem_enabledOnlyIn, mem_enabledOnlyIn]
  tauto

theorem isReplaced_comm (before after : Deployment) (id : ElementId) :
    isReplaced before after id = isReplaced after before id := by
  unfold isReplaced
  cases before.elements.find? id <;> cases after.elements.find? id <;> simp [bne_comm]

/-- What is enabled in a mount and not switched there is the same copy in the other deployment, and
enabled there, too. -/
theorem mem_enabledAt_of_not_mem_enabledOnlyIn {other : Deployment} {s : Deployed}
    (hs : d.elements.find? id = some s) (hp : p ∈ s.enabledIn.elems)
    (hno : p ∉ d.enabledOnlyIn other (isReplaced d other id) id) : s.element ∈ other.enabledAt p := by
  rw [mem_enabledOnlyIn, not_and, not_or, not_not] at hno
  obtain ⟨hsame, hother⟩ := hno (mem_enabledIn.2 ⟨s, hs, hp⟩)
  obtain ⟨t, ht, htp⟩ := mem_enabledIn.1 hother
  have heq : s.element = t.element := by simpa [isReplaced, hs, ht] using hsame
  exact mem_enabledAt.2 ⟨id, t, ht, htp, heq.symm⟩

theorem enabledFilters_eq (hb : before.Coherent) (ha : after.Coherent)
    (hp : after.contexts.physical.contains p)
    (hno : ∀ fs, .updateFilters p fs ∉ effects before after refresh) :
    before.enabledFilters p = after.enabledFilters p := by
  have hstays (f : Effect) (id : ElementId) (hf : f ∈ switchEffects before after id) :
      filterPath? f ≠ some p := fun hfp =>
    hno _ (updateFilters_mem_effects.2 ⟨rfl, hp, .inr ⟨f, ⟨id, hf⟩, hfp⟩⟩)
  refine (hb.keyed.ranked_enabledFilters p).ext_mem (ha.keyed.ranked_enabledFilters p) fun e => ?_
  rw [mem_enabledFilters, mem_enabledFilters]
  refine and_congr_left fun hkind => ⟨fun h => ?_, fun h => ?_⟩
  · obtain ⟨id, s, hs, hsp, rfl⟩ := mem_enabledAt.1 h
    refine mem_enabledAt_of_not_mem_enabledOnlyIn hs hsp fun hmem => ?_
    exact hstays _ id (mem_switchEffects.2 (.inl ⟨s, hs, p, hmem, rfl⟩)) (by simp [filterPath?, hkind])
  · obtain ⟨id, s, hs, hsp, rfl⟩ := mem_enabledAt.1 h
    refine mem_enabledAt_of_not_mem_enabledOnlyIn hs hsp fun hmem => ?_
    rw [isReplaced_comm] at hmem
    exact hstays _ id (mem_switchEffects.2 (.inr ⟨s, hs, p, hmem, rfl⟩)) (by simp [filterPath?, hkind])

/-- The effects lead from what belonged into each mount before to what belongs there afterwards. -/
theorem foldl_effects (hb : before.Coherent) (ha : after.Coherent) (refresh : OrdSet ContextPath)
    (p : ContextPath) :
    (effects before after refresh).foldl (Effect.remount p) (before.mounts.find? p) =
      after.mounts.find? p := by
  -- whatever was in a mount that goes, goes with it; a mount that is there is compared part by part
  cases hp : after.contexts.physical.contains p with
  | false =>
    have hnone : after.mounts.find? p = none := by
      rw [← Option.not_isSome_iff_eq_none, isSome_find?_mounts, hp]
      exact Bool.false_ne_true
    rw [hnone]
    refine Effect.foldl_remount_none (by simp [createPhysical_mem_effects, hp]) ?_
    rw [destroyPhysical_mem_effects, ← isSome_find?_mounts]
    cases before.mounts.find? p <;> simp [hp]
  | true =>
    have hmounted : (before.mounts.find? p).isSome ∨
        .createPhysical p ∈ effects before after refresh := by
      rw [createPhysical_mem_effects, isSome_find?_mounts]
      cases before.contexts.physical.contains p <;> simp [hp]
    have hkept : .destroyPhysical p ∉ effects before after refresh := by
      simp [destroyPhysical_mem_effects, hp]
    have hsorted := pairwise_effects before after refresh
    obtain ⟨m, hm⟩ := Option.isSome_iff_exists.1 (Effect.isSome_foldl_remount hmounted hkept)
    have hgetD := congrArg (Option.getD · {}) hm
    have hcontexts : m.contexts = (after.occupancy p).contexts := OrdSet.ext_mem fun id => by
      rw [← show _ = m from hgetD, Effect.mem_contexts_foldl_remount hsorted hmounted hkept,
        hb.getD_mounts, hb.mem_contexts, ha.mem_contexts,
        bound_after_iff hb.wellFormed ha.wellFormed]
    have helements : m.elements = (after.occupancy p).elements := OrdSet.ext_mem fun id => by
      rw [← show _ = m from hgetD, Effect.mem_elements_foldl_remount hsorted hmounted hkept,
        hb.getD_mounts, hb.mem_elements, ha.mem_elements, enabled_after_iff hb.keyed ha.keyed]
    have hfilters : m.filters = (after.occupancy p).filters := by
      rw [← show _ = m from hgetD]
      refine (Effect.filters_foldl_remount hsorted hmounted hkept fun gs hgs => ?_).2 ?_
      · rw [(updateFilters_mem_effects.1 hgs).1]
        rfl
      · by_cases hsent : ∃ gs, .updateFilters p gs ∈ effects before after refresh
        · exact .inl (hsent.elim fun gs hgs => ⟨_, hgs, gs, rfl⟩)
        · right
          rw [hb.getD_mounts, occupancy, occupancy, enabledFilters_eq hb ha hp (not_exists.1 hsent)]
    obtain ⟨x, hx⟩ := Option.isSome_iff_exists.1 (hp : (after.contexts.physical.find? p).isSome)
    rw [hm, find?_mounts, hx, show m = ⟨m.contexts, m.elements, m.filters⟩ from rfl, hcontexts,
      helements, hfilters]
    rfl

end Leading

end Deployment

end ServletContainer
