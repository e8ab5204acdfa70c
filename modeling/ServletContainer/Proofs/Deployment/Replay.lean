import ServletContainer.Proofs.Deployment.Switches
import ServletContainer.Proofs.Engine.Strict

/-! The effects of a batch on a strict engine. If it has what is deployed before, each effect fits, and in
the end it has what is deployed afterwards (`replay_effects`). -/
namespace ServletContainer

namespace Deployment

variable {d before after : Deployment} {refresh : OrdSet ContextPath} {l : Ledger} {f g : Effect}
  {x : Holding} {xs ys : List Effect} {id : ElementId} {e : Element} {p : ContextPath}

def Holds (d : Deployment) : Holding → Prop
  | .mount p => d.contexts.physical.contains p
  | .context id p => ∃ c, d.contexts.find? id = some c ∧ c.path = p
  | .element e p => e ∈ d.enabledAt p

theorem Coherent.holds_mount (hd : d.Coherent) (h : d.Holds x) : d.Holds (.mount x.path) := by
  cases x with
  | mount p => exact h
  | context id p =>
    obtain ⟨c, hc, rfl⟩ := h
    exact contains_of_mem_boundAt (hd.wellFormed.mem_boundAt_of_find? hc)
  | element e p =>
    obtain ⟨id, s, hs, hp, _⟩ := mem_enabledAt.1 h
    exact hd.contains_of_enabled (mem_enabledIn.2 ⟨s, hs, hp⟩)

theorem Keyed.eq_of_mem_enabledAt (hd : d.Keyed) {a : Element} (he : e ∈ d.enabledAt p)
    (ha : a ∈ d.enabledAt p) (hid : a.id = e.id) : a = e := by
  obtain ⟨i, s, hs, _, rfl⟩ := mem_enabledAt.1 he
  obtain ⟨j, t, ht, _, rfl⟩ := mem_enabledAt.1 ha
  rw [hd i s hs, hd j t ht] at hid
  subst hid
  cases hs.symm.trans ht
  rfl

theorem not_mem_enabledAt_of_mem_enabledOnlyIn {other : Deployment} {s : Deployed} (hd : d.Keyed)
    (hother : other.Keyed) (hs : d.elements.find? id = some s)
    (hp : p ∈ d.enabledOnlyIn other (isReplaced d other id) id) : s.element ∉ other.enabledAt p := by
  intro he
  obtain ⟨i, t, ht, htp, heq⟩ := mem_enabledAt.1 he
  obtain rfl : i = id := by rw [← hother i t ht, heq, hd id s hs]
  have hsame : isReplaced d other i = false := by simp [isReplaced, hs, ht, heq]
  rw [mem_enabledOnlyIn, hsame] at hp
  exact hp.2.resolve_left (by simp) (mem_enabledIn.2 ⟨t, ht, htp⟩)

/-- A copy that is enabled in a mount afterwards was switched on there, or was enabled there and was not
switched off. -/
theorem active_after_iff (hb : before.Keyed) (ha : after.Keyed) :
    ((∃ f ∈ effects before after refresh, ∃ c, f = .activate e p c) ∨
        e ∈ before.enabledAt p ∧ ∀ f ∈ effects before after refresh, ¬ ∃ c, f = .deactivate e p c) ↔
      e ∈ after.enabledAt p := by
  constructor
  · rintro (⟨_, hf, c, rfl⟩ | ⟨he, hstays⟩)
    · obtain ⟨id, s, hs, hp, rfl, _⟩ := activate_mem_effects.1 hf
      exact (ha.element_mem_enabledAt hs).2 (mem_enabledOnlyIn.1 hp).1
    · obtain ⟨id, s, hs, hp, rfl⟩ := mem_enabledAt.1 he
      refine mem_enabledAt_of_not_mem_enabledOnlyIn hs hp fun hmem => ?_
      exact hstays _ (deactivate_mem_effects.2 ⟨id, s, hs, hmem, rfl, rfl⟩) ⟨_, rfl⟩
  · intro he
    obtain ⟨id, s, hs, hp, rfl⟩ := mem_enabledAt.1 he
    by_cases hmem : p ∈ after.enabledOnlyIn before (isReplaced before after id) id
    · exact .inl ⟨_, activate_mem_effects.2 ⟨id, s, hs, hmem, rfl, rfl⟩, _, rfl⟩
    · rw [isReplaced_comm] at hmem
      refine .inr ⟨mem_enabledAt_of_not_mem_enabledOnlyIn hs hp hmem, ?_⟩
      rintro _ hf ⟨c, rfl⟩
      obtain ⟨i, t, ht, hoff, heq, _⟩ := deactivate_mem_effects.1 hf
      exact not_mem_enabledAt_of_mem_enabledOnlyIn hb ha ht hoff (heq ▸ he)

theorem holds_after_iff (hb : before.Coherent) (ha : after.Coherent) (refresh : OrdSet ContextPath) :
    ((∃ f ∈ effects before after refresh, f.gain? = some x) ∨
        before.Holds x ∧ ∀ f ∈ effects before after refresh, f.loss? ≠ some x) ↔ after.Holds x := by
  cases x with
  | mount p =>
    have hkept : (∀ f ∈ effects before after refresh, ¬ f = .destroyPhysical p) ↔
        .destroyPhysical p ∉ effects before after refresh :=
      ⟨fun h hmem => h _ hmem rfl, fun h f hf heq => h (heq ▸ hf)⟩
    simp only [Effect.gain?_eq_mount, ne_eq, Effect.loss?_eq_mount, exists_eq_right, Holds]
    rw [hkept, createPhysical_mem_effects, destroyPhysical_mem_effects]
    cases before.contexts.physical.contains p <;> cases after.contexts.physical.contains p <;> simp
  | context id p =>
    simp only [Effect.gain?_eq_context, ne_eq, Effect.loss?_eq_context]
    exact bound_after_iff hb.wellFormed ha.wellFormed
  | element e p =>
    simp only [Effect.gain?_eq_element, ne_eq, Effect.loss?_eq_element]
    exact active_after_iff hb.keyed ha.keyed

theorem holds_of_loss? (hb : before.Coherent) (hf : f ∈ effects before after refresh)
    (hloss : f.loss? = some x) : before.Holds x := by
  cases x with
  | mount p =>
    rw [Effect.loss?_eq_mount] at hloss
    exact (destroyPhysical_mem_effects.1 (hloss ▸ hf)).1
  | context id p =>
    rw [Effect.loss?_eq_context] at hloss
    obtain ⟨c, ⟨⟨i, hc⟩, _⟩, rfl, rfl⟩ := unbindContext_mem_effects.1 (hloss ▸ hf)
    exact ⟨c, hb.wellFormed.keyed i c hc ▸ hc, rfl⟩
  | element e p =>
    obtain ⟨c, rfl⟩ := Effect.loss?_eq_element.1 hloss
    obtain ⟨id, s, hs, hp, rfl, _⟩ := deactivate_mem_effects.1 hf
    exact (hb.keyed.element_mem_enabledAt hs).2 (mem_enabledOnlyIn.1 hp).1

theorem exists_loss?_of_gain? (hb : before.Coherent) (ha : after.Coherent)
    (hf : f ∈ effects before after refresh) (hgain : f.gain? = some x) (hx : before.Holds x) :
    ∃ g ∈ effects before after refresh, g.loss? = some x := by
  cases x with
  | mount p =>
    rw [Effect.gain?_eq_mount] at hgain
    have hnot := (createPhysical_mem_effects.1 (hgain ▸ hf)).2
    exact absurd hx (by simp [Holds, hnot])
  | context id p =>
    obtain ⟨c, rfl, rfl, rfl⟩ := Effect.gain?_eq_context.1 hgain
    obtain ⟨⟨i, hc⟩, hmoved⟩ := bindContext_mem_effects.1 hf
    obtain ⟨o, ho, hpath⟩ := hx
    have hid : o.id = c.id := hb.wellFormed.keyed _ o ho
    refine ⟨.unbindContext c.id c.path, unbindContext_mem_effects.2 ⟨o, ⟨⟨_, ho⟩, ?_⟩, hid, hpath⟩, rfl⟩
    rw [isMoved_iff, hid, ha.wellFormed.keyed i c hc, hc]
    rintro _ ⟨⟩ ⟨hrank, _⟩
    exact isMoved_iff.1 hmoved o ho ⟨hrank.symm, hpath⟩
  | element e p =>
    obtain ⟨c, rfl⟩ := Effect.gain?_eq_element.1 hgain
    obtain ⟨id, s, hs, hp, rfl, _⟩ := activate_mem_effects.1 hf
    rw [isReplaced_comm] at hp
    exact absurd hx (not_mem_enabledAt_of_mem_enabledOnlyIn ha.keyed hb.keyed hs hp)

theorem eq_of_gain? (ha : after.Coherent) (hf : f ∈ effects before after refresh)
    (hg : g ∈ effects before after refresh) (hfx : f.gain? = some x) (hgx : g.gain? = some x) :
    f = g := by
  cases x with
  | mount p => rw [Effect.gain?_eq_mount.1 hfx, Effect.gain?_eq_mount.1 hgx]
  | context id p =>
    obtain ⟨c, rfl, rfl, rfl⟩ := Effect.gain?_eq_context.1 hfx
    obtain ⟨o, rfl, hid, _⟩ := Effect.gain?_eq_context.1 hgx
    obtain ⟨⟨i, hc⟩, _⟩ := bindContext_mem_effects.1 hf
    obtain ⟨⟨j, ho⟩, _⟩ := bindContext_mem_effects.1 hg
    rw [← ha.wellFormed.keyed i c hc] at hc
    rw [← ha.wellFormed.keyed j o ho, hid, hc] at ho
    rw [Option.some.inj ho]
  | element e p =>
    obtain ⟨c, rfl⟩ := Effect.gain?_eq_element.1 hfx
    obtain ⟨o, rfl⟩ := Effect.gain?_eq_element.1 hgx
    obtain ⟨_, _, _, _, rfl, rfl⟩ := activate_mem_effects.1 hf
    obtain ⟨_, _, _, _, heq, rfl⟩ := activate_mem_effects.1 hg
    rw [heq]

theorem eq_of_loss? (hf : f ∈ effects before after refresh) (hg : g ∈ effects before after refresh)
    (hfx : f.loss? = some x) (hgx : g.loss? = some x) : f = g := by
  cases x with
  | mount p => rw [Effect.loss?_eq_mount.1 hfx, Effect.loss?_eq_mount.1 hgx]
  | context id p => rw [Effect.loss?_eq_context.1 hfx, Effect.loss?_eq_context.1 hgx]
  | element e p =>
    obtain ⟨c, rfl⟩ := Effect.loss?_eq_element.1 hfx
    obtain ⟨o, rfl⟩ := Effect.loss?_eq_element.1 hgx
    obtain ⟨_, _, _, _, rfl, rfl⟩ := deactivate_mem_effects.1 hf
    obtain ⟨_, _, _, _, heq, rfl⟩ := deactivate_mem_effects.1 hg
    rw [heq]

section Earlier

variable (hfs : effects before after refresh = xs ++ f :: ys)

include hfs

theorem mem_effects_of_split : f ∈ effects before after refresh := by simp [hfs]

theorem earlier_subset (hg : g ∈ xs) : g ∈ effects before after refresh := by simp [hfs, hg]

theorem mem_earlier_of_stage_lt (hg : g ∈ effects before after refresh) (hlt : g.stage < f.stage) :
    g ∈ xs := by
  have hsorted := pairwise_effects before after refresh
  rw [hfs] at hg hsorted
  have hlater := (List.pairwise_cons.1 (List.pairwise_append.1 hsorted).2.1).1
  rcases List.mem_append.1 hg with hg | hg
  · exact hg
  · rcases List.mem_cons.1 hg with rfl | hg
    · exact absurd hlt (lt_irrefl _)
    · exact absurd (hlater g hg) (Nat.not_le.2 hlt)

variable (hb : before.Coherent) (ha : after.Coherent)

include hb ha

theorem not_mem_earlier : f ∉ xs := by
  have hnodup := nodup_effects hb ha refresh
  rw [hfs] at hnodup
  exact fun hf => (List.disjoint_of_nodup_append hnodup) hf List.mem_cons_self

variable (hl : ∀ x, x ∈ l ↔ before.Holds x)

include hl

omit hb ha in
theorem mem_foldl_earlier : x ∈ xs.foldl Ledger.enter l ↔
    (∃ g ∈ xs, g.gain? = some x) ∨ before.Holds x ∧ ∀ g ∈ xs, g.loss? ≠ some x := by
  have hsorted := pairwise_effects before after refresh
  rw [hfs] at hsorted
  rw [Ledger.mem_foldl_enter (List.pairwise_append.1 hsorted).1, hl]

/-- Once its stage of losses is over, the engine has nothing that it is not to have in the end. -/
theorem holds_of_mem_earlier (hx : x ∈ xs.foldl Ledger.enter l) (hstage : x.lossStage < f.stage) :
    after.Holds x := by
  refine (holds_after_iff hb ha refresh).1 ?_
  rcases (mem_foldl_earlier hfs hl).1 hx with ⟨g, hg, hgain⟩ | ⟨hx, hstays⟩
  · exact .inl ⟨g, earlier_subset hfs hg, hgain⟩
  · refine .inr ⟨hx, fun g hg hloss => hstays g ?_ hloss⟩
    exact mem_earlier_of_stage_lt hfs hg (Effect.stage_of_loss? hloss ▸ hstage)

/-- Once its stage of gains is over, the engine has all that it is to have in the end. -/
theorem mem_earlier_of_holds (hx : after.Holds x) (hstage : x.gainStage < f.stage) :
    x ∈ xs.foldl Ledger.enter l := by
  refine (mem_foldl_earlier hfs hl).2 ?_
  rcases (holds_after_iff hb ha refresh).2 hx with ⟨g, hg, hgain⟩ | ⟨hx, hstays⟩
  · exact .inl ⟨g, mem_earlier_of_stage_lt hfs hg (Effect.stage_of_gain? hgain ▸ hstage), hgain⟩
  · exact .inr ⟨hx, fun g hg => hstays g (earlier_subset hfs hg)⟩

theorem mem_earlier_of_loss? (hloss : f.loss? = some x) : x ∈ xs.foldl Ledger.enter l := by
  have hf := mem_effects_of_split hfs
  refine (mem_foldl_earlier hfs hl).2 (.inr ⟨holds_of_loss? hb hf hloss, fun g hg hgx => ?_⟩)
  exact not_mem_earlier hfs hb ha (eq_of_loss? hf (earlier_subset hfs hg) hloss hgx ▸ hg)

theorem not_mem_earlier_of_gain? (hgain : f.gain? = some x) : x ∉ xs.foldl Ledger.enter l := by
  have hf := mem_effects_of_split hfs
  rw [mem_foldl_earlier hfs hl]
  rintro (⟨g, hg, hgx⟩ | ⟨hx, hstays⟩)
  · exact not_mem_earlier hfs hb ha (eq_of_gain? ha hf (earlier_subset hfs hg) hgain hgx ▸ hg)
  · obtain ⟨g, hg, hloss⟩ := exists_loss?_of_gain? hb ha hf hgain hx
    refine hstays g (mem_earlier_of_stage_lt hfs hg ?_) hloss
    rw [Effect.stage_of_loss? hloss, Effect.stage_of_gain? hgain]
    exact x.lossStage_lt_gainStage

theorem mount_mem_earlier (hp : after.contexts.physical.contains p) (hstage : 3 < f.stage) :
    .mount p ∈ xs.foldl Ledger.enter l :=
  mem_earlier_of_holds hfs hb ha hl (x := .mount p) hp hstage

theorem eq_mount_of_destroyPhysical (hf : f = .destroyPhysical p)
    (hx : x ∈ xs.foldl Ledger.enter l) (hpath : x.path = p) : x = .mount p := by
  have hgone := (destroyPhysical_mem_effects.1 (hf ▸ mem_effects_of_split hfs)).2
  by_contra hne
  have hstage : x.lossStage < f.stage := by
    rw [hf]
    cases x with
    | mount q => exact absurd (congrArg Holding.mount hpath) hne
    | _ => simp [Holding.lossStage, Effect.stage]
  have hmount := ha.holds_mount (holds_of_mem_earlier hfs hb ha hl hx hstage)
  rw [hpath, Holds, hgone] at hmount
  cases hmount

theorem not_isAt_of_activate {context : Option LogicalContext} (hf : f = .activate e p context)
    (hx : x ∈ xs.foldl Ledger.enter l) : ¬ x.IsAt e.id p := by
  intro hat
  obtain ⟨id, s, hs, hp, he, _⟩ := activate_mem_effects.1 (hf ▸ mem_effects_of_split hfs)
  have hgain : f.gain? = some (.element e p) := by rw [hf, Effect.gain?]
  cases x with
  | element a q =>
    obtain ⟨hid, rfl⟩ := hat
    have hstage : (Holding.element a q).lossStage < f.stage := by
      simp [hf, Holding.lossStage, Effect.stage]
    have hafter : a ∈ after.enabledAt q := holds_of_mem_earlier hfs hb ha hl hx hstage
    have hon : e ∈ after.enabledAt q :=
      he ▸ (ha.keyed.element_mem_enabledAt hs).2 (mem_enabledOnlyIn.1 hp).1
    obtain rfl := ha.keyed.eq_of_mem_enabledAt hon hafter hid
    exact not_mem_earlier_of_gain? hfs hb ha hl hgain hx
  | _ => exact hat

theorem admits_after : Ledger.Admits (xs.foldl Ledger.enter l) f := by
  have hf := mem_effects_of_split hfs
  cases f with
  | createPhysical p => exact not_mem_earlier_of_gain? hfs hb ha hl rfl
  | destroyPhysical p =>
    exact ⟨mem_earlier_of_loss? hfs hb ha hl rfl,
      fun x hx => eq_mount_of_destroyPhysical hfs hb ha hl rfl hx⟩
  | unbindContext id p => exact mem_earlier_of_loss? hfs hb ha hl rfl
  | bindContext c =>
    obtain ⟨⟨i, hc⟩, _⟩ := bindContext_mem_effects.1 hf
    have hbound := ha.wellFormed.mem_boundAt_of_find? hc
    exact ⟨mount_mem_earlier hfs hb ha hl (contains_of_mem_boundAt hbound) (by simp [Effect.stage]),
      not_mem_earlier_of_gain? hfs hb ha hl rfl⟩
  | deactivate e p c => exact mem_earlier_of_loss? hfs hb ha hl rfl
  | activate e p context =>
    have halone (x : Holding) (hx : x ∈ xs.foldl Ledger.enter l) : ¬ x.IsAt e.id p :=
      not_isAt_of_activate hfs hb ha hl rfl hx
    obtain ⟨id, s, hs, hp, rfl, hcontext⟩ := activate_mem_effects.1 hf
    obtain ⟨c, hc, hbound⟩ := ha.contextFor_of_enabled hs (mem_enabledOnlyIn.1 hp).1
    obtain ⟨hfind, hpath⟩ := ha.wellFormed.mem_boundAt.1 hbound
    obtain rfl : context = some c := hcontext.trans hc
    exact ⟨mount_mem_earlier hfs hb ha hl (contains_of_mem_boundAt hbound) (by simp [Effect.stage]),
      mem_earlier_of_holds hfs hb ha hl (x := .context c.id p) ⟨c, hfind, hpath⟩
        (by simp [Holding.gainStage, Effect.stage]), halone⟩
  | updateFilters p fs =>
    obtain ⟨rfl, hp, _⟩ := updateFilters_mem_effects.1 hf
    refine ⟨mount_mem_earlier hfs hb ha hl hp (by simp [Effect.stage]), fun g hg => ?_⟩
    exact mem_earlier_of_holds hfs hb ha hl (x := .element g p) (mem_enabledFilters.1 hg).1
      (by simp [Holding.gainStage, Effect.stage])

end Earlier

/-- If the engine has what is deployed before, it accepts the effects, and then has what is deployed
afterwards. -/
theorem replay_effects (hb : before.Coherent) (ha : after.Coherent)
    (hl : ∀ x, x ∈ l ↔ before.Holds x) (refresh : OrdSet ContextPath) :
    ∃ m, l.replay (effects before after refresh) = some m ∧ ∀ x, x ∈ m ↔ after.Holds x := by
  refine ⟨_, Ledger.replay_eq_some fun xs f ys hfs => admits_after hfs hb ha hl, fun x => ?_⟩
  rw [Ledger.mem_foldl_enter (pairwise_effects before after refresh), hl, holds_after_iff hb ha refresh]

end Deployment

end ServletContainer
