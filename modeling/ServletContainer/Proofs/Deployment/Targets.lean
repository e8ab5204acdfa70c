import ServletContainer.Proofs.Deployment.Withdrawn

/-! Where elements stay whose targets are withdrawn. After any changes, the records are those of the
targets that are not bound (`Tracks.apply`), and each has the path that the context was last unbound from
(`Becomes.lastUnbound`). This decides to which mounts an element is mapped (`tracked_targets`). -/
namespace ServletContainer.Deployment

variable {d d' m : Deployment} {c : Change} {cs : List Change} {t : ContextId} {p q : ContextPath}

theorem unbound_of_apply (h : d.apply c = .ok m) (hfree : m.contexts.find? t = none) :
    c = .removeContext t ∨ d.contexts.find? t = none := by
  rw [context_of_apply h] at hfree
  cases c with
  | addContext x =>
    simp only [Change.onContext] at hfree
    split at hfree
    · cases hfree
    · exact .inr hfree
  | removeContext j =>
    simp only [Change.onContext] at hfree
    split at hfree
    · rename_i hj
      exact .inl (congrArg _ hj)
    · exact .inr hfree
  | updateRank j rank =>
    simp only [Change.onContext] at hfree
    split at hfree
    · exact .inr (Option.map_eq_none_iff.1 hfree)
    · exact .inr hfree
  | _ => exact .inr hfree

section Tracking

/-- Of the targets of elements, exactly those that are not bound are recorded as withdrawn. -/
structure Tracks (d : Deployment) : Prop where
  remembers : d.Remembers
  unbound : ∀ t p, d.withdrawn.find? t = some p → d.contexts.find? t = none
  recorded : ∀ t, d.isTargeted t → d.contexts.find? t = none → ∃ p, d.withdrawn.find? t = some p

theorem isTargeted_of_apply (h : d.apply c = .ok m) (ht : m.isTargeted t) :
    d.isTargeted t ∨ ∃ x, m.contexts.find? t = some x := by
  have hl := leads_of_apply h
  obtain ⟨id, s, hs, ht⟩ := isTargeted_iff.1 ht
  rw [hl.elements] at hs
  have hold {s : Deployed} (hs : d.elements.find? id = some s) (ht : t ∈ s.element.targets) :
      d.isTargeted t := isTargeted_iff.2 ⟨id, s, hs, ht⟩
  cases c with
  | addElement e =>
    have hcontexts : d.contexts = m.contexts := Except.ok.inj hl.contexts
    simp only [entryAfter] at hs
    split at hs
    · cases hs
      exact .inr (hcontexts ▸ bound_of_addElement h t ht)
    · exact .inl (hold hs ht)
  | removeElement j =>
    simp only [entryAfter] at hs
    split at hs
    · cases hs
    · exact .inl (hold hs ht)
  | retarget j ts =>
    have hcontexts : d.contexts = m.contexts := Except.ok.inj hl.contexts
    simp only [entryAfter] at hs
    split at hs
    · obtain ⟨s, _, rfl⟩ := Option.map_eq_some_iff.1 hs
      exact .inr (hcontexts ▸ bound_of_retarget h t (Element.mem_distinct.1 ht))
    · exact .inl (hold hs ht)
  | _ => exact .inl (hold hs ht)

/-- The record of a target after a change: it is made when the context is removed, and goes when the
context is bound again or nothing names it any more. -/
theorem Tracks.withdrawn_of_apply (hd : d.Tracks) (h : d.apply c = .ok m) :
    m.withdrawn.find? t = some p ↔ m.isTargeted t ∧ m.contexts.find? t = none ∧
      if c = .removeContext t then ∃ x, d.contexts.find? t = some x ∧ x.path = p
      else d.withdrawn.find? t = some p := by
  have hcontext := context_of_apply h t
  by_cases hc : c.context? = some t
  · have hfree {x : LogicalContext} (hx : d.contexts.find? t = some x) (q : ContextPath) :
        d.withdrawn.find? t ≠ some q := fun hq => by cases (hd.unbound t q hq).symm.trans hx
    cases c with
    | addContext x =>
      obtain rfl : x.id = t := Option.some.inj hc
      obtain ⟨_, _, rfl⟩ := exists_of_map_ok h
      rw [hcontext]
      simp [Change.onContext, OrdMap.find?_erase_eq]
    | removeContext j =>
      obtain rfl : j = t := Option.some.inj hc
      obtain ⟨x, hx, helements, hwithdrawn⟩ := removeContext_ok h
      rw [if_pos rfl, hcontext, hx, hwithdrawn, isTargeted_congr helements]
      by_cases ht : d.isTargeted j
      · simp [ht, Change.onContext, OrdMap.find?_insert_eq]
      · simp [ht, hfree hx p]
    | updateRank j rank =>
      obtain rfl : j = t := Option.some.inj hc
      obtain ⟨_, hupdate, rfl⟩ := exists_of_map_ok h
      obtain ⟨x, hx, _⟩ := Contexts.updateRank_ok hupdate
      have hx : d.contexts.find? j = some x := hx
      rw [hcontext, hx]
      simp [hfree hx p]
    | _ => cases hc
  · have hne : c ≠ .removeContext t := by
      rintro rfl
      exact hc rfl
    rw [hd.remembers.withdrawn_of_ne h hc, if_neg hne, hcontext, Change.onContext_of_ne hc]
    exact and_congr_right fun _ => (and_iff_right_of_imp (hd.unbound t p)).symm

theorem Tracks.apply (hd : d.Tracks) (h : d.apply c = .ok m) : m.Tracks where
  remembers := hd.remembers.apply h
  unbound t p hp := ((hd.withdrawn_of_apply h).1 hp).2.1
  recorded t ht hfree := by
    have hbefore := (isTargeted_of_apply h ht).resolve_right fun ⟨x, hx⟩ => by cases hfree.symm.trans hx
    simp only [hd.withdrawn_of_apply h, ht, hfree, true_and]
    split
    · rename_i hc
      subst hc
      obtain ⟨x, hx, _⟩ := removeContext_ok h
      exact ⟨x.path, x, hx, rfl⟩
    · rename_i hc
      exact hd.recorded t hbefore ((unbound_of_apply h hfree).resolve_left hc)

theorem Becomes.tracks (h : d.Becomes cs m) (hd : d.Tracks) : m.Tracks :=
  h.preserves (P := Tracks) (fun _ _ _ hb ha => ha.apply hb) hd

end Tracking

section History

def LastUnbound (d : Deployment) (cs : List Change) (t : ContextId) (p : ContextPath) : Prop :=
  ∃ as bs m x, cs = as ++ .removeContext t :: bs ∧ .removeContext t ∉ bs ∧ d.Becomes as m ∧
    m.contexts.find? t = some x ∧ x.path = p

theorem LastUnbound.snoc (h : d.LastUnbound cs t p) (hc : c ≠ .removeContext t) :
    d.LastUnbound (cs ++ [c]) t p := by
  obtain ⟨as, bs, m, x, rfl, hbs, hm, hx⟩ := h
  exact ⟨as, bs ++ [c], m, x, by simp, by simp [hbs, hc.symm], hm, hx⟩

theorem LastUnbound.unique (hp : d.LastUnbound cs t p) (hq : d.LastUnbound cs t q) : p = q := by
  obtain ⟨as, bs, m, x, rfl, hbs, hm, hx, rfl⟩ := hp
  obtain ⟨as', bs', m', y, heq, hbs', hm', hy, rfl⟩ := hq
  -- the context may be unbound earlier as well, so that only what comes after tells the two apart
  have hsame : as = as' := by
    rcases List.append_eq_append_iff.1 heq with ⟨us, rfl, hus⟩ | ⟨us, rfl, hus⟩
    · cases us with
      | nil => simp
      | cons u us =>
        cases hus
        exact absurd (by simp) hbs
    · cases us with
      | nil => simp
      | cons u us =>
        cases hus
        exact absurd (by simp) hbs'
  subst hsame
  cases hm.unique hm'
  cases hx.symm.trans hy
  rfl

/-- A record has the path that its context was last unbound from. -/
theorem Becomes.lastUnbound (h : d.Becomes cs m) (hd : d.Tracks) (hnew : d.withdrawn = ∅)
    (hp : m.withdrawn.find? t = some p) : d.LastUnbound cs t p := by
  induction cs using List.reverseRecOn generalizing m p with
  | nil =>
    rw [← becomes_nil.1 h, hnew] at hp
    cases hp
  | append_singleton cs c ih =>
    obtain ⟨a, ha, hc⟩ := becomes_append.1 h
    obtain ⟨b, hb, hbm⟩ := becomes_cons.1 hc
    obtain rfl := becomes_nil.1 hbm
    obtain ⟨_, _, hrecord⟩ := ((ha.tracks hd).withdrawn_of_apply hb).1 hp
    split at hrecord
    · rename_i hc
      obtain ⟨x, hx⟩ := hrecord
      exact ⟨cs, [], a, x, by rw [hc], by simp, ha, hx⟩
    · rename_i hc
      exact (ih ha hrecord).snoc hc

end History

section Mounts

theorem isSome_highest_iff (hw : d.contexts.WellFormed) :
    (d.contexts.highest p).isSome ↔ ∃ j x, d.contexts.find? j = some x ∧ x.path = p := by
  rw [hw.highest_eq, List.isSome_head?, ← List.length_pos_iff, List.length_pos_iff_exists_mem]
  constructor
  · rintro ⟨x, hx⟩
    exact ⟨x.id, x, hw.mem_boundAt.1 hx⟩
  · rintro ⟨j, x, hx, rfl⟩
    exact ⟨x, hw.mem_boundAt_of_find? hx⟩

theorem targetPath_eq_some_iff (hd : d.Tracks) (hw : d.contexts.WellFormed) :
    d.targetPath t = some p ↔ (∃ x, d.contexts.find? t = some x ∧ x.path = p) ∨
      d.withdrawn.find? t = some p ∧ ∃ j x, d.contexts.find? j = some x ∧ x.path = p := by
  unfold targetPath
  split
  · rename_i x hx
    have hnone : d.withdrawn.find? t ≠ some p := fun hp => by cases (hd.unbound t p hp).symm.trans hx
    simp [hx, hnone]
  · rename_i hfree
    rw [Option.filter_eq_some_iff, isSome_highest_iff hw]
    simp [hfree]

end Mounts

/-- Withdrawn targets are tracked exactly. After any changes to an empty deployment, those targets of
elements have a record that are not bound, and the record is the path that the context was last unbound
from. An element with targets is mapped to the paths of its bound targets, and to the recorded paths of
the others at which there is a context. Where the elements are enabled plays no part in it. -/
theorem tracked_targets {policy : Policy} {defaultContext : ContextId}
    (h : ({ policy, defaultContext } : Deployment).Becomes cs d.blank) :
    (∀ t, (∃ p, d.withdrawn.find? t = some p) ↔
      (∃ id s, d.elements.find? id = some s ∧ t ∈ s.element.targets) ∧ d.contexts.find? t = none) ∧
    (∀ t p, d.withdrawn.find? t = some p →
      ∀ q, ({ policy, defaultContext } : Deployment).LastUnbound cs t q ↔ q = p) ∧
    ∀ e : Element, e.targets ≠ [] → ∀ p, p ∈ d.physicalOf e ↔
      (∃ t ∈ e.targets, ∃ x, d.contexts.find? t = some x ∧ x.path = p) ∨
        ∃ t ∈ e.targets, d.withdrawn.find? t = some p ∧
          ∃ j x, d.contexts.find? j = some x ∧ x.path = p := by
  have hempty : ({ policy, defaultContext } : Deployment).Tracks := ⟨nofun, nofun, nofun⟩
  have htracks := h.tracks hempty
  have hw : d.contexts.WellFormed := h.wellFormed .empty
  refine ⟨fun t => ?_, fun t p hp q => ?_, fun e he p => ?_⟩
  · rw [← isTargeted_iff, ← isTargeted_blank]
    exact ⟨fun ⟨p, hp⟩ => ⟨htracks.remembers t p hp, htracks.unbound t p hp⟩,
      fun ⟨ht, hfree⟩ => htracks.recorded t ht hfree⟩
  · have hlast := h.lastUnbound hempty rfl hp
    exact ⟨fun hq => hq.unique hlast, fun hq => hq ▸ hlast⟩
  · have hpath (t : ContextId) : d.targetPath t = some p ↔
        (∃ x, d.contexts.find? t = some x ∧ x.path = p) ∨
          d.withdrawn.find? t = some p ∧ ∃ j x, d.contexts.find? j = some x ∧ x.path = p :=
      targetPath_eq_some_iff (d := d.blank) htracks hw
    rw [physicalOf, if_neg (by simpa using he), OrdSet.mem_ofList, List.mem_filterMap]
    simp only [hpath, and_or_left, exists_or]

/-- The context `a` of an element is unbound from `/m`, bound to `/n` and unbound again. The element
stays there, with the context `c`; its other target is withdrawn as well, and its mount has gone. -/
theorem tracked_targets_moved :
    let context (id : ContextId) (path : String) : LogicalContext := { id, path := ⟨path⟩, order := 0 }
    let e : Element := .catchAll 1 ["a", "b"]
    let cs : List Change :=
      [.addContext (context "a" "/m"), .addContext (context "b" "/m"), .addElement e,
        .removeContext "a", .addContext (context "a" "/n"), .addContext (context "c" "/n"),
        .removeContext "b", .removeContext "a"]
    let d₀ : Deployment := { policy := .strict, defaultContext := "default" }
    let d : Deployment := (d₀.applyAll 0 cs).toOption.getD d₀
    d₀.Becomes cs d.blank ∧ d.withdrawn.entries = [("a", ⟨"/n"⟩), ("b", ⟨"/m"⟩)] ∧
      d₀.LastUnbound cs "a" ⟨"/n"⟩ ∧ ¬ d₀.LastUnbound cs "a" ⟨"/m"⟩ ∧
      ⟨"/n"⟩ ∈ d.physicalOf e ∧ ⟨"/m"⟩ ∉ d.physicalOf e := by
  intro context e cs d₀ d
  have h : d₀.Becomes cs d.blank := by unfold Becomes; decide +kernel
  have hwithdrawn : d.withdrawn.entries = [("a", ⟨"/n"⟩), ("b", ⟨"/m"⟩)] := by decide +kernel
  obtain ⟨_, hlast, hmounts⟩ := tracked_targets h
  have ha := hlast "a" ⟨"/n"⟩ (by decide +kernel)
  exact ⟨h, hwithdrawn, (ha _).2 rfl, fun hm => absurd ((ha _).1 hm) (by decide),
    (hmounts e (by decide) _).2 (.inr ⟨"a", by decide, by decide +kernel, "c", context "c" "/n",
      by decide +kernel, rfl⟩), by decide +kernel⟩

end ServletContainer.Deployment
