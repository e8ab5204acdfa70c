import ServletContainer.Proofs.Config.Reload
import ServletContainer.Proofs.Server.Arbitration

/-! What reloads lead to. Two managers that have the same declarations online, each on a server of its
own, have the same contexts and elements deployed, whatever either of them did before
(`Online.context_resembles`, `Online.twins_resemble`), and these are enabled in the same mounts as long as
ranks decide who comes first (`Online.enabledIn_eq`). So a reload comes to what a fresh server makes of the
declarations, if it takes them (`apply_converges`); it need not take what was checked for another default
context (`apply_diverges`). -/
namespace ServletContainer

/-- The contexts are the same but for their places in the order of creation and for where their resources
are kept. -/
structure LogicalContext.Resembles (c c' : LogicalContext) : Prop where
  id : c'.id = c.id
  path : c'.path = c.path
  rank : c'.rank = c.rank
  init : c'.init = c.init
  session : c'.session = c.session

theorem LogicalContext.Resembles.refl (c : LogicalContext) : c.Resembles c := ⟨rfl, rfl, rfl, rfl, rfl⟩

theorem ContextDecl.Describes.resembles {x : ContextDecl} {c c' : LogicalContext} (h : x.Describes c)
    (h' : x.Describes c') : c.Resembles c' where
  id := h'.id.trans h.id.symm
  path := Except.ok.inj (h'.path.symm.trans h.path)
  rank := h'.rank.trans h.rank.symm
  init := h'.init.trans h.init.symm
  session := h'.session.trans h.session.symm

/-- The elements are the same but for their numbers. -/
def Element.Resembles (e e' : Element) : Prop :=
  { e' with id := e.id, copy := e.copy, serviceId := e.serviceId } = e

namespace Element.Resembles

variable {e e' : Element}

theorem slots_eq (h : e.Resembles e') : e'.slots = e.slots := by
  rw [← h]
  rfl

theorem kind_eq (h : e.Resembles e') : e'.kind = e.kind := by
  rw [← h]
  rfl

theorem slotKeys_eq (h : e.Resembles e') (ps : List ContextPath) : e'.slotKeys ps = e.slotKeys ps := by
  rw [slotKeys, slotKeys, h.slots_eq, h.kind_eq]

theorem targets_eq (h : e.Resembles e') : e'.targets = e.targets := by
  rw [← h]

theorem rank_eq (h : e.Resembles e') : e'.rank = e.rank := by
  rw [← h]

theorem dynamic_eq (h : e.Resembles e') : e'.dynamic = e.dynamic := by
  rw [← h]

end Element.Resembles

/-- The ranks decide between any two elements that compete for a slot. -/
def Deployment.RanksDiffer (d : Deployment) : Prop :=
  ∀ a ∈ d.elements.values, ∀ b ∈ d.elements.values, a.element.id ≠ b.element.id →
    (∃ k ∈ d.slotsOf a, k ∈ d.slotsOf b) → a.element.rank ≠ b.element.rank

instance (d : Deployment) : Decidable d.RanksDiffer :=
  inferInstanceAs (Decidable (∀ a ∈ d.elements.values, ∀ b ∈ d.elements.values,
    a.element.id ≠ b.element.id → (∃ k ∈ d.slotsOf a, k ∈ d.slotsOf b) →
      a.element.rank ≠ b.element.rank))

/-- Declared elements go to the default context and to declared ones only. -/
def Declared.Closed (default : ContextId) (D : Declared) : Prop :=
  ∀ key x, D.elements.find? key = some x →
    ∀ t ∈ x.contexts, t = default ∨ (D.contexts.find? t).isSome

namespace Deployment

variable {d m : Deployment} {es : List (String × Element)}

theorem Becomes.bound_addElements (h : d.Becomes (es.map fun e => .addElement e.2) m)
    {e : String × Element} (he : e ∈ es) {t : ContextId} (ht : t ∈ e.2.targets) :
    ∃ c, m.contexts.find? t = some c := by
  induction es generalizing d with
  | nil => cases he
  | cons x es ih =>
    obtain ⟨a, ha, hrest⟩ := becomes_cons.1 h
    rcases List.mem_cons.1 he with rfl | he
    · obtain ⟨c, hc⟩ := bound_of_addElement ha t ht
      exact ⟨c, by rw [h.traces.context, ConfigManager.foldl_onContext_addElements, hc]⟩
    · exact ih hrest he

end Deployment

namespace ConfigManager

open Deployment

variable {m m' : ConfigManager} {s s' t s₀ : Server} {D : Declared} {base : LogicalContext}
  {default name : ContextId} {key : String} {config : ServerConfig} {engine : Engine} {pool : Pool}
  {a a' b b' : Deployed} {cs : List LogicalContext} {es : List (String × Element)}

section Twins

/-- The deployed elements are noted for the same declaration. -/
def Twins (m m' : ConfigManager) (s s' : Server) (a a' : Deployed) : Prop :=
  ∃ key id id', m.elements.find? key = some id ∧ m'.elements.find? key = some id' ∧
    s.deployment.elements.find? id = some a ∧ s'.deployment.elements.find? id' = some a'

theorem Twins.symm (h : Twins m m' s s' a a') : Twins m' m s' s a' a := by
  obtain ⟨key, id, id', hid, hid', ha, ha'⟩ := h
  exact ⟨key, id', id, hid', hid, ha', ha⟩

theorem Online.noted_deployed (h : m.Online base s) {id : ElementId}
    (ha : s.deployment.elements.find? id = some a) : ∃ key x, m.elements.find? key = some id ∧
      m.online.elements.find? key = some x ∧ x.Describes a.element.original ∧ a.element.id = id := by
  have hplaced : s.deployment.placed id = some a.element.original := by rw [placed, ha]; rfl
  obtain ⟨key, hid⟩ := h.noted id _ hplaced
  obtain ⟨x, e, hx, he, heid, hdescribes⟩ := h.placed_of_noted hid
  obtain rfl := Option.some.inj (hplaced.symm.trans he)
  exact ⟨key, x, hid, hx, hdescribes, heid⟩

theorem Online.exists_deployed (h : m.Online base s) {x : ElementDecl}
    (hx : m.online.elements.find? key = some x) : ∃ id a, m.elements.find? key = some id ∧
      s.deployment.elements.find? id = some a ∧ x.Describes a.element.original := by
  have hrel := h.elements key
  rw [hx] at hrel
  obtain ⟨id, hid, e, he, _, hdescribes⟩ := exists_right_of_rel hrel
  obtain ⟨a, ha, rfl⟩ := Option.map_eq_some_iff.1 he
  exact ⟨id, a, hid, ha, hdescribes⟩

theorem Online.exists_twin (h : m.Online base s) (h' : m'.Online base s')
    (honline : m'.online = m.online) {id : ElementId}
    (ha : s.deployment.elements.find? id = some a) :
    ∃ id' a', s'.deployment.elements.find? id' = some a' ∧ Twins m m' s s' a a' := by
  obtain ⟨key, x, hid, hx, _⟩ := h.noted_deployed ha
  obtain ⟨id', a', hid', ha', _⟩ := h'.exists_deployed (honline ▸ hx)
  exact ⟨id', a', ha', key, id, id', hid, hid', ha, ha'⟩

theorem Online.twins_resemble (h : m.Online base s) (h' : m'.Online base s')
    (honline : m'.online = m.online) (ht : Twins m m' s s' a a') :
    ∃ key x, m.online.elements.find? key = some x ∧ x.Describes a.element.original ∧
      a.element.Resembles a'.element := by
  obtain ⟨key, id, id', hid, hid', ha, ha'⟩ := ht
  obtain ⟨x, e, hx, he, _, hdescribes⟩ := h.placed_of_noted hid
  obtain ⟨x', e', hx', he', _, hdescribes'⟩ := h'.placed_of_noted hid'
  rw [honline, hx] at hx'
  obtain rfl := Option.some.inj hx'
  rw [placed, ha] at he
  rw [placed, ha'] at he'
  obtain rfl := Option.some.inj he
  obtain rfl := Option.some.inj he'
  refine ⟨key, x, hx, hdescribes, ?_⟩
  have hagree := hdescribes.agree hdescribes'
  exact congrArg (fun e : Element => { e with copy := a.element.copy }) hagree

end Twins

section Places

theorem Online.context_resembles (h : m.Online base s) (h' : m'.Online base s')
    (honline : m'.online = m.online) (name : ContextId) :
    Option.Rel LogicalContext.Resembles (s.deployment.contexts.find? name)
      (s'.deployment.contexts.find? name) := by
  by_cases hname : name = base.id
  · rw [hname, h.bound, h'.bound]
    exact .some (.refl base)
  · have hrel := h.contexts name hname
    have hrel' := h'.contexts name hname
    rw [honline] at hrel'
    cases hx : m.online.contexts.find? name with
    | none =>
      rw [hx] at hrel hrel'
      rw [eq_none_of_rel_left hrel, eq_none_of_rel_left hrel']
      exact .none
    | some x =>
      rw [hx] at hrel hrel'
      obtain ⟨c, hc, hdescribes⟩ := exists_right_of_rel hrel
      obtain ⟨c', hc', hdescribes'⟩ := exists_right_of_rel hrel'
      rw [hc, hc']
      exact .some (hdescribes.resembles hdescribes')

theorem Online.exists_context_of_known (h : m.Online base s)
    (hname : name = base.id ∨ (m.online.contexts.find? name).isSome) :
    ∃ c, s.deployment.contexts.find? name = some c := by
  rcases hname with rfl | hsome
  · exact ⟨base, h.bound⟩
  · obtain ⟨x, hx⟩ := Option.isSome_iff_exists.1 hsome
    exact h.exists_context hx

theorem Online.targetPath_eq (h : m.Online base s) (h' : m'.Online base s')
    (honline : m'.online = m.online)
    (hname : name = base.id ∨ (m.online.contexts.find? name).isSome) :
    s'.deployment.targetPath name = s.deployment.targetPath name := by
  obtain ⟨c, hc⟩ := h.exists_context_of_known hname
  have hrel := h.context_resembles h' honline name
  rw [hc] at hrel
  obtain ⟨c', hc', hresembles⟩ := exists_right_of_rel hrel
  rw [targetPath, targetPath, hc, hc']
  exact congrArg some hresembles.path

theorem Online.physicalOf_eq (h : m.Online base s) (h' : m'.Online base s')
    (honline : m'.online = m.online) (hclosed : m.online.Closed base.id)
    (ht : Twins m m' s s' a a') :
    s'.deployment.physicalOf a'.element = s.deployment.physicalOf a.element := by
  obtain ⟨key, x, hx, hdescribes, hresembles⟩ := h.twins_resemble h' honline ht
  have hpaths : a.element.targets.filterMap s'.deployment.targetPath =
      a.element.targets.filterMap s.deployment.targetPath := by
    refine List.filterMap_congr fun t hmem => h.targetPath_eq h' honline (hclosed key x hx t ?_)
    have hdistinct : a.element.targets = Element.distinct x.contexts := hdescribes.targets
    rwa [hdistinct, Element.mem_distinct] at hmem
  unfold physicalOf
  rw [hresembles.targets_eq, hpaths, h.defaultContext, h'.defaultContext, h.bound, h'.bound]

theorem Online.slotsOf_eq (h : m.Online base s) (h' : m'.Online base s')
    (honline : m'.online = m.online) (hclosed : m.online.Closed base.id)
    (ht : Twins m m' s s' a a') : s'.deployment.slotsOf a' = s.deployment.slotsOf a := by
  obtain ⟨_, _, _, _, hresembles⟩ := h.twins_resemble h' honline ht
  rw [slotsOf, slotsOf, h.physicalOf_eq h' honline hclosed ht, hresembles.slotKeys_eq]

end Places

section Enabling

theorem Twins.unique (h : m.Online base s) (hk : s.deployment.Keyed) (ht : Twins m m' s s' a a')
    (ht' : Twins m m' s s' a b') : a' = b' := by
  obtain ⟨key, id, id', hid, hid', ha, ha'⟩ := ht
  obtain ⟨key₂, id₂, id₂', hid₂, hid₂', ha₂, hb'⟩ := ht'
  obtain rfl : id = id₂ := (hk id a ha).symm.trans (hk id₂ a ha₂)
  obtain rfl := h.injective key key₂ id hid hid₂
  obtain rfl := Option.some.inj (hid'.symm.trans hid₂')
  exact Option.some.inj (ha'.symm.trans hb')

theorem Online.better_iff (h : m.Online base s) (h' : m'.Online base s')
    (honline : m'.online = m.online) (hk : s.deployment.Keyed) (hranks : s.deployment.RanksDiffer)
    (ha : Twins m m' s s' a a') (hb : Twins m m' s s' b b')
    (hshares : (s.deployment.candidateOf a.element).Shares (s.deployment.candidateOf b.element)) :
    (s.deployment.candidateOf a.element).Better (s.deployment.candidateOf b.element) ↔
      (s'.deployment.candidateOf a'.element).Better (s'.deployment.candidateOf b'.element) := by
  obtain ⟨_, _, _, hdescribes, hresembles⟩ := h.twins_resemble h' honline ha
  obtain ⟨_, _, _, hdescribes₂, hresembles₂⟩ := h.twins_resemble h' honline hb
  by_cases hsame : a = b
  · subst hsame
    obtain rfl := ha.unique h hk hb
    exact iff_of_false (Candidate.Better.irrefl _) (Candidate.Better.irrefl _)
  · obtain ⟨_, i, _, _, _, hi, _⟩ := id ha
    obtain ⟨_, j, _, _, _, hj, _⟩ := id hb
    have hids : a.element.id ≠ b.element.id := by
      rw [hk i a hi, hk j b hj]
      rintro rfl
      exact hsame (Option.some.inj (hi.symm.trans hj))
    have hrank : a.element.rank ≠ b.element.rank :=
      hranks a (OrdMap.mem_values_iff.2 ⟨i, hi⟩) b (OrdMap.mem_values_iff.2 ⟨j, hj⟩) hids hshares
    have hdynamic : a.element.dynamic = b.element.dynamic :=
      hdescribes.dynamic.trans hdescribes₂.dynamic.symm
    have hrank' : a'.element.rank ≠ b'.element.rank := by
      rwa [hresembles.rank_eq, hresembles₂.rank_eq]
    have hdynamic' : a'.element.dynamic = b'.element.dynamic := by
      rwa [hresembles.dynamic_eq, hresembles₂.dynamic_eq]
    refine (TieBreak.lt_iff_of_rank_ne hdynamic hrank).trans (Iff.trans ?_
      (TieBreak.lt_iff_of_rank_ne hdynamic' hrank').symm)
    simp only [Element.tieBreak, candidateOf, hresembles.rank_eq, hresembles₂.rank_eq]

theorem Online.enabledIn_eq (h : m.Online base s) (h' : m'.Online base s')
    (honline : m'.online = m.online) (hclosed : m.online.Closed base.id)
    (hk : s.deployment.Keyed) (hk' : s'.deployment.Keyed) (hc : s.deployment.Complete)
    (hc' : s'.deployment.Complete) (hpolicy : s'.deployment.policy = s.deployment.policy)
    (hranks : s.deployment.RanksDiffer) (ht : Twins m m' s s' a a') :
    a'.enabledIn = a.enabledIn := by
  have hF := stable_arbitrated hk'
  rw [hpolicy] at hF
  have htransfer := (stable_arbitrated hk).transfer hF
    (R := fun c c' => ∃ a a', Twins m m' s s' a a' ∧ c = s.deployment.candidateOf a.element ∧
      c' = s'.deployment.candidateOf a'.element)
    (by
      intro c hmem
      obtain ⟨id, a, ha, rfl⟩ := mem_candidates.1 hmem
      obtain ⟨id', a', ha', htwin⟩ := h.exists_twin h' honline ha
      exact ⟨_, candidateOf_mem ha', a, a', htwin, rfl, rfl⟩)
    (by
      intro c' hmem
      obtain ⟨id', a', ha', rfl⟩ := mem_candidates.1 hmem
      obtain ⟨id, a, ha, htwin⟩ := h'.exists_twin h honline.symm ha'
      exact ⟨_, candidateOf_mem ha, a, a', htwin.symm, rfl, rfl⟩)
    (by
      rintro c c' ⟨a, a', htwin, rfl, rfl⟩
      exact ⟨(h.physicalOf_eq h' honline hclosed htwin).symm,
        (h.slotsOf_eq h' honline hclosed htwin).symm⟩)
    (by
      rintro _ _ _ _ ⟨a, a', ha, rfl, rfl⟩ ⟨b, b', hb, rfl, rfl⟩ hshares
      exact h.better_iff h' honline hk hranks ha hb hshares)
  obtain ⟨key, id, id', hid, hid', ha, ha'⟩ := id ht
  have hagree := htransfer _ (candidateOf_mem ha) _ (candidateOf_mem ha') ⟨a, a', ht, rfl, rfl⟩
  have harb : s'.deployment.arbitrated id' = s.deployment.arbitrated id := by
    refine OrdSet.ext_mem fun p => ?_
    have hiff := hagree p
    rw [Candidate.id, Candidate.id, candidateOf, candidateOf, hk id a ha, hk' id' a' ha'] at hiff
    exact hiff.symm
  rw [← enabledIn_of_find? ha, ← enabledIn_of_find? ha', hc id, hc' id', harb]

end Enabling

section Runs

theorem about_difference {c : Change} {id : ElementId} (hc : c ∈ m.difference D cs es)
    (hid : c.element? = some id) :
    c = .removeElement id ∧ id ∈ (m.outdated D).values ∨
      ∃ e ∈ es, c = .addElement e.2 ∧ e.2.id = id := by
  rw [difference, removals, List.mem_append, List.mem_append, List.mem_append] at hc
  rcases hc with ((hc | hc) | hc) | hc
  · obtain ⟨j, hj, rfl⟩ := List.mem_map.1 hc
    obtain rfl : j = id := Option.some.inj hid
    exact .inl ⟨rfl, hj⟩
  · obtain ⟨e, _, hchange⟩ := List.mem_filterMap.1 hc
    cases (context?_contextChange hchange).2.symm.trans hid
  · obtain ⟨x, _, rfl⟩ := List.mem_map.1 hc
    cases hid
  · obtain ⟨e, he, rfl⟩ := List.mem_map.1 hc
    exact .inr ⟨e, he, rfl, Option.some.inj hid⟩

/-- Nothing is removed and added again under its number, as new elements have new numbers. -/
theorem Online.not_revives (h : m.Online base s) (hdraft : m.Draft s D cs es) (id : ElementId) :
    ¬ Revives (m.difference D cs es) id := by
  intro hrevives
  obtain ⟨e, hadd, hid⟩ := hrevives.adds
  rcases about_difference hadd (congrArg some hid) with ⟨hremove, _⟩ | ⟨x, hx, hxe, hxid⟩
  · cases hremove
  · rcases about_difference hrevives.removes rfl with ⟨_, hgone⟩ | ⟨_, _, hremove, _⟩
    · obtain ⟨key, hnoted, _⟩ := mem_outdated.1 hgone
      obtain ⟨_, f, _, hf, _⟩ := h.placed_of_noted hnoted
      exact absurd (h.fresh id f hf) (hxid ▸ (hdraft.id_of_mem hx).1).not_gt
    · cases hremove

/-- Whatever was declared on the way, everything is enabled as if it were arbitrated from scratch. -/
theorem Reached.complete (h : Reached s₀ m s)
    (hs₀ : (Server.new config engine pool).start = (.ok (), s₀)) :
    s.deployment.policy = config.arbitration ∧ s.deployment.Keyed ∧ s.deployment.Complete := by
  induction h with
  | start =>
    obtain ⟨p, _, hcommits⟩ := Server.start_new hs₀
    have hkeyed := keyed_vacant config.arbitration config.defaultContext
    obtain ⟨d, hbecomes, heq⟩ := id hcommits
    refine ⟨by rw [heq]; exact hbecomes.settings.1, hcommits.keyed hkeyed,
      hcommits.complete hkeyed (complete_vacant _ _) fun id hrevives => ?_⟩
    obtain ⟨e, he, _⟩ := hrevives.adds
    simp at he
  | @apply m s c n n' D hm hD ih =>
    obtain ⟨p, _, honline⟩ := hm.online hs₀
    rcases happly : m.apply s D with ⟨e | r, m', t⟩
    · obtain ⟨_, hconsumes, _⟩ := apply_error happly
      rwa [hconsumes.deployment]
    · obtain ⟨cs, es, hdraft, _, _, ⟨_, hsame⟩ | hcommits⟩ := apply_ok happly
      · rwa [hsame]
      · obtain ⟨hpolicy, hkeyed, hcomplete⟩ := ih
        obtain ⟨d, hbecomes, heq⟩ := id hcommits
        refine ⟨?_, hcommits.keyed hkeyed,
          hcommits.complete hkeyed hcomplete (honline.not_revives hdraft)⟩
        rw [← hpolicy, heq]
        exact hbecomes.settings.1
  | meanwhile _ _ _ _ _ _ ih => exact ih

theorem Online.closed_of_fresh (h : ({} : ConfigManager).Online base s) (hD : D.Checked default)
    {r : Option Report} (hok : ({} : ConfigManager).apply s D = (.ok r, m, t)) : D.Closed base.id := by
  have honline := h.apply hD
  rw [hok] at honline
  obtain ⟨cs, es, hdraft, rfl, _, hdone⟩ := apply_ok hok
  intro key x hx name hname
  obtain ⟨e, he, hdescribes⟩ := hdraft.exists_element hx nofun
  rcases hdone with ⟨hnil, _⟩ | hcommits
  · obtain ⟨_, hes⟩ := List.append_eq_nil_iff.1 hnil
    rw [List.map_eq_nil_iff.1 hes] at he
    cases he
  · obtain ⟨d, hbecomes, heq⟩ := id hcommits
    obtain ⟨a, _, hadds⟩ := becomes_append.1 hbecomes
    rw [← Element.mem_distinct, ← hdescribes.targets] at hname
    obtain ⟨c, hc⟩ := hadds.bound_addElements he hname
    rw [hbecomes.traces.context, ← hcommits.traces.context] at hc
    refine or_iff_not_imp_left.2 fun hne => ?_
    have hrel : Option.Rel ContextDecl.Describes (D.contexts.find? name) _ := honline.contexts name hne
    rw [hc] at hrel
    obtain ⟨x, hx, _⟩ := exists_left_of_rel hrel
    rw [hx]
    rfl

/-- The managers have the same declarations online, to the same effect. -/
structure Converged (D : Declared) (m m' : ConfigManager) (d d' : Deployment) : Prop where
  contexts : ∀ name,
    Option.Rel LogicalContext.Resembles (d.contexts.find? name) (d'.contexts.find? name)
  /-- What is declared is deployed, as the same element, and enabled in the same mounts. -/
  elements : ∀ key x, D.elements.find? key = some x → ∃ id id' a a',
    m.elements.find? key = some id ∧ m'.elements.find? key = some id' ∧
      d.elements.find? id = some a ∧ d'.elements.find? id' = some a' ∧
      a.element.Resembles a'.element ∧ a'.enabledIn = a.enabledIn
  /-- Nothing else is deployed. -/
  noted : ∀ id, d.elements.contains id →
    ∃ key, m.elements.find? key = some id ∧ (D.elements.find? key).isSome
  noted' : ∀ id, d'.elements.contains id →
    ∃ key, m'.elements.find? key = some id ∧ (D.elements.find? key).isSome

theorem Online.noted_contains (h : m.Online base s) {id : ElementId}
    (hid : s.deployment.elements.contains id) :
    ∃ key, m.elements.find? key = some id ∧ (m.online.elements.find? key).isSome := by
  obtain ⟨a, ha⟩ := Option.isSome_iff_exists.1 hid
  obtain ⟨key, x, hnoted, hx, _⟩ := h.noted_deployed ha
  exact ⟨key, hnoted, by rw [hx]; rfl⟩

/-- Declarations that are brought online, after whatever was declared before, have the effect that they
have on a server of the same settings where nothing else was ever brought online, as long as ranks decide
between elements that compete. On such a server only the engine can refuse them if they were checked for
the default context. -/
theorem apply_converges {engine' : Engine} {pool' : Pool} {f₀ f : Server} {c : Config} {n n' : Counters}
    {r : Option Report} (hs₀ : (Server.new config engine pool).start = (.ok (), s₀))
    (h : Reached s₀ m s) (hD : c.declared n = (.ok D, n')) (hok : (m.apply s D).1 = .ok r)
    (hranks : (m.apply s D).2.2.deployment.RanksDiffer)
    (hf₀ : (Server.new config engine' pool').start = (.ok (), f₀)) (hf : Reached f₀ {} f) :
    (∀ r', (({} : ConfigManager).apply f D).1 = .ok r' →
        Converged D (m.apply s D).2.1 (({} : ConfigManager).apply f D).2.1
          (m.apply s D).2.2.deployment (({} : ConfigManager).apply f D).2.2.deployment) ∧
      (c.server.defaultContext = config.defaultContext →
        ∀ e, (({} : ConfigManager).apply f D).1 = .error e →
          ∃ cause, e = .batch (.engine "config reload" cause)) := by
  obtain ⟨p', hp', hfresh⟩ := hf.online hf₀
  refine ⟨fun r' hok' => ?_, fun hdefault e he => hfresh.apply_refused (by
    rw [show (Server.baseContext config p').id = c.server.defaultContext from hdefault.symm]
    exact Config.checked hD) he⟩
  obtain ⟨p, hp, honline⟩ := (Reached.apply h hD).online hs₀
  obtain ⟨hpolicy, hk, hc⟩ := (Reached.apply h hD).complete hs₀
  obtain ⟨hpolicy', hk', hc'⟩ := (Reached.apply hf hD).complete hf₀
  obtain rfl : p = p' := Except.ok.inj (hp.symm.trans hp')
  have honline' := hfresh.apply (Config.checked hD)
  generalize hx : m.apply s D = x at *
  generalize hy : ({} : ConfigManager).apply f D = y at *
  obtain ⟨_, m', t⟩ := x
  obtain ⟨_, l, u⟩ := y
  obtain rfl := hok
  obtain rfl := hok'
  have hclosed := hfresh.closed_of_fresh (Config.checked hD) hy
  obtain ⟨_, es, _, rfl, _⟩ := apply_ok hx
  obtain ⟨_, fs, _, rfl, _⟩ := apply_ok hy
  have hsame : (ConfigManager.adopt {} D fs).online = (m.adopt D es).online := rfl
  exact {
    contexts := honline.context_resembles honline' hsame
    elements := fun key x hx => by
      obtain ⟨id, a, hid, ha, _⟩ := honline.exists_deployed hx
      obtain ⟨id', a', hid', ha', _⟩ := honline'.exists_deployed hx
      have htwins : Twins _ _ t u a a' := ⟨key, id, id', hid, hid', ha, ha'⟩
      obtain ⟨_, _, _, _, hresembles⟩ := honline.twins_resemble honline' hsame htwins
      exact ⟨id, id', a, a', hid, hid', ha, ha', hresembles,
        honline.enabledIn_eq honline' hsame hclosed hk hk' hc hc' (hpolicy'.trans hpolicy.symm)
          hranks htwins⟩
    noted := fun id => honline.noted_contains
    noted' := fun id => honline'.noted_contains }

/-- Two servlets compete in a context that has moved. A reload before that was refused for a class that is
not registered. -/
theorem apply_converges_moved :
    let main (path : String) : ContextDecl := ⟨"main", path, 0, ∅, none, {}, none⟩
    let echo (name : String) (rank : Int) : ElementDecl :=
      ⟨name, ["main"], rank, .servlet "webboard.EchoServlet" ["/echo"] [] ∅⟩
    let c : Config := { contexts := [main "/n"], elements := [echo "one" 0, echo "two" 7] }
    let D : Declared := ⟨.ofList [("main", main "/n")],
      .ofList [("servlet/one", echo "one" 0), ("servlet/two", echo "two" 7)]⟩
    let s₀ := (Server.new {} (.inProcess {}) (Pool.withBuiltins {})).start.2
    let f₀ := (Server.new {} .idle {}).start.2
    let y := ({} : ConfigManager).apply f₀ D
    c.declared {} = (.ok D, ⟨3, 2⟩) ∧ y.1.toBool ∧ ∃ m s, Reached s₀ m s ∧
      m.elements.entries = [("servlet/one", 1)] ∧
      (m.apply s D).2.1.elements.entries = [("servlet/one", 1), ("servlet/two", 3)] ∧
      (m.apply s D).2.2.deployment.enabledIn 1 = ∅ ∧ (m.apply s D).2.2.deployment.isEnabled 3 ∧
      (m.apply s D).1.toBool ∧ (m.apply s D).2.2.deployment.RanksDiffer ∧
      Converged D (m.apply s D).2.1 y.2.1 (m.apply s D).2.2.deployment y.2.2.deployment := by
  intro main echo c D s₀ f₀ y
  let ghost : ElementDecl := ⟨"ghost", [], 0, .servlet "demo.Ghost" ["/ghost"] [] ∅⟩
  let D₁ : Declared := ⟨.ofList [("main", main "/m")], .ofList [("servlet/one", echo "one" 0)]⟩
  let D₂ : Declared := { D₁ with elements := D₁.elements.insert "servlet/ghost" ghost }
  have hs₀ : (Server.new {} (.inProcess {}) (Pool.withBuiltins {})).start = (.ok (), s₀) := by
    decide +kernel
  have hf₀ : (Server.new {} .idle {}).start = (.ok (), f₀) := by decide +kernel
  have h₁ : Config.declared { contexts := [main "/m"], elements := [echo "one" 0] } {} =
      (.ok D₁, ⟨2, 2⟩) := by decide +kernel
  have h₂ : Config.declared { contexts := [main "/m"], elements := [echo "one" 0, ghost] } {} =
      (.ok D₂, ⟨3, 2⟩) := by decide +kernel
  have hD : c.declared {} = (.ok D, ⟨3, 2⟩) := by decide +kernel
  have hy : y.1.toBool := by decide +kernel
  obtain ⟨r', hr'⟩ := exists_of_toBool hy
  -- for any state at first, so that the run is not evaluated on the way
  have hconverged {m : ConfigManager} {s : Server} (h : Reached s₀ m s)
      (hok : (m.apply s D).1.toBool) (hranks : (m.apply s D).2.2.deployment.RanksDiffer) :
      (m.apply s D).1.toBool ∧ (m.apply s D).2.2.deployment.RanksDiffer ∧
        Converged D (m.apply s D).2.1 y.2.1 (m.apply s D).2.2.deployment y.2.2.deployment := by
    obtain ⟨r, hr⟩ := exists_of_toBool hok
    exact ⟨hok, hranks, (apply_converges hs₀ h hD (congrArg Prod.fst hr) hranks hf₀ .start).1 r'
      (congrArg Prod.fst hr')⟩
  have hreached : Reached s₀ _ _ := .apply (.apply .start h₁) h₂
  exact ⟨hD, hy, _, _, hreached, by decide +kernel, by decide +kernel, by decide +kernel,
    by decide +kernel, hconverged hreached (by decide +kernel) (by decide +kernel)⟩

/-- Declarations that were checked for another default context: a server where this context was declared
before takes them, and the servlet stays without a context, but a fresh server does not. -/
theorem apply_diverges :
    let e : ElementDecl := ⟨"e", ["main"], 0, .servlet "webboard.EchoServlet" ["/e"] [] ∅⟩
    let main : ContextDecl := ⟨"main", "/m", 0, ∅, none, {}, none⟩
    let c₁ : Config := { contexts := [main], elements := [e] }
    let c : Config := { server := { defaultContext := "main" }, elements := [e] }
    let D₁ : Declared := ⟨.ofList [("main", main)], .ofList [("servlet/e", e)]⟩
    let D : Declared := ⟨∅, .ofList [("servlet/e", e)]⟩
    let s₀ := (Server.new {} .idle {}).start.2
    let x₁ := ({} : ConfigManager).apply s₀ D₁
    let x := x₁.2.1.apply x₁.2.2 D
    let y := ({} : ConfigManager).apply s₀ D
    (c₁.declared {} = (.ok D₁, ⟨2, 2⟩) ∧ c.declared {} = (.ok D, ⟨2, 1⟩)) ∧
      (x₁.1.toBool ∧ x.1.toBool ∧ x.2.2.deployment.RanksDiffer) ∧
      (x.2.2.deployment.elements.find? 1).map (·.element.targets) = some ["main"] ∧
      x.2.2.deployment.enabledIn 1 = ∅ ∧
      y.1 = .error (.batch (.validation "config reload" 0 "add servlet \"e\" #1"
        (.unknownContext "main"))) ∧ y.2.2.deployment.elements = ∅ ∧
      ¬ Converged D x.2.1 y.2.1 x.2.2.deployment y.2.2.deployment := by
  intro e main c₁ c D₁ D s₀ x₁ x y
  have haccepted : c₁.declared {} = (.ok D₁, ⟨2, 2⟩) ∧ c.declared {} = (.ok D, ⟨2, 1⟩) := by
    decide +kernel
  have happlied : x₁.1.toBool ∧ x.1.toBool ∧ x.2.2.deployment.RanksDiffer := by decide +kernel
  have hempty : y.2.2.deployment.elements = ∅ := by decide +kernel
  have he : D.elements.find? "servlet/e" = some e := by decide +kernel
  refine ⟨haccepted, happlied, by decide +kernel, by decide +kernel, by decide +kernel, hempty, ?_⟩
  intro hconverged
  obtain ⟨_, id', _, a', _, _, _, ha', _⟩ := hconverged.elements "servlet/e" e he
  rw [hempty] at ha'
  cases ha'

end Runs

end ConfigManager

end ServletContainer
