import ServletContainer.Proofs.Whiteboard.Tracking

/-! A whiteboard and elements that others have deployed. It adds only what it was given (`adds_respond`). An
element that is deployed, but not by the whiteboard, stays as it is whatever the event, unless the event
ends its registration (`Keyed.respond_foreign`). -/
namespace ServletContainer

def Event.Registers (id : ElementId) : Event → Prop
  | .registered e _ => e.id = id
  | _ => False

theorem Tracked.change_of_waits {t : Tracked} (h : t.targets = none) (id : ElementId)
    (targets : Option (List ContextId)) (copy : Nat) :
    t.change id targets copy = targets.map fun ts => .addElement (t.element.withTargets ts copy) := by
  cases targets <;> simp [change, h]

namespace Whiteboard

open Deployment

variable {w : Whiteboard} {d m : Deployment} {event : Event} {id : ElementId} {c : Change}
  {contexts : OrdSet ContextId} {copy : Nat} {module : Module}

theorem placed_eq_none_iff :
    w.placed id = none ↔ ∀ t, w.tracked.find? id = some t → t.targets = none := by
  rw [placed, Option.bind_eq_none_iff]
  exact forall₂_congr fun t _ => Option.map_eq_none_iff

theorem placed_left (h : w.placed id = none) : (w.left module).placed id = none := by
  refine placed_eq_none_iff.2 fun t ht => ?_
  rw [find?_left] at ht
  exact placed_eq_none_iff.1 h t (Option.filter_eq_some_iff.1 ht).1

section Tracked

theorem contains_iff : w.tracked.contains id ↔ ∃ t, w.tracked.find? id = some t :=
  Option.isSome_iff_exists

theorem exists_of_tracked_respond {t : Tracked} (ht : (w.respond d event).2.tracked.find? id = some t) :
    (∃ u, w.tracked.find? id = some u ∧ u.element = t.element) ∨
      id = t.element.id ∧ ∃ selector, event = .registered t.element selector := by
  have hretarget (w : Whiteboard) (contexts : OrdSet ContextId)
      (ht : (w.retarget contexts d.nextCopy).2.tracked.find? id = some t) :
      ∃ u, w.tracked.find? id = some u ∧ u.element = t.element := by
    rw [find?_retarget] at ht
    obtain ⟨u, hu, rfl⟩ := Option.map_eq_some_iff.1 ht
    exact ⟨u, hu, rfl⟩
  cases event with
  | contextRegistered c => exact .inl (hretarget _ _ ht)
  | contextRemoved c => exact .inl (hretarget _ _ ht)
  | rankChanged c rank => exact .inl ⟨t, ht, rfl⟩
  | moduleStopped module =>
    rw [respond_moduleStopped] at ht
    obtain ⟨u, hu, heq⟩ := hretarget _ _ ht
    rw [find?_left] at hu
    exact .inl ⟨u, (Option.filter_eq_some_iff.1 hu).1, heq⟩
  | registered e selector =>
    rw [find?_registered] at ht
    split at ht
    · rename_i he
      cases ht
      exact .inr ⟨he, selector, rfl⟩
    · exact .inl ⟨t, ht, rfl⟩
  | unregistered j =>
    rw [find?_unregistered] at ht
    split at ht
    · cases ht
    · exact .inl ⟨t, ht, rfl⟩

theorem contains_respond (h : (w.respond d event).2.tracked.contains id) :
    w.tracked.contains id ∨ event.Registers id := by
  rw [contains_iff] at h ⊢
  obtain ⟨t, ht⟩ := h
  obtain ⟨u, hu, _⟩ | ⟨rfl, selector, rfl⟩ := exists_of_tracked_respond ht
  · exact .inl ⟨u, hu⟩
  · exact .inr rfl

end Tracked

section Adding

variable {e : Element}

theorem exists_of_add_retarget (he : .addElement e ∈ (w.retarget contexts copy).1) :
    ∃ id t ts, w.tracked.find? id = some t ∧ t.targets = none ∧ e = t.element.withTargets ts copy := by
  obtain ⟨⟨j, t⟩, hentry, hchange⟩ := List.mem_filterMap.1 he
  simp only [Tracked.change] at hchange
  split at hchange
  · cases hchange
  · split at hchange <;> cases hchange
    exact ⟨j, t, _, OrdMap.mem_entries_iff.1 hentry, ‹_›, rfl⟩

theorem exists_of_add_respond (he : .addElement e ∈ (w.respond d event).1) :
    (∃ id t ts, w.tracked.find? id = some t ∧ t.targets = none ∧
        e = t.element.withTargets ts d.nextCopy) ∨
      ∃ f selector ts, event = .registered f selector ∧ e = f.withTargets ts d.nextCopy := by
  cases event with
  | contextRegistered c => exact .inl (exists_of_add_retarget ((List.mem_cons.1 he).resolve_left nofun))
  | contextRemoved c =>
    exact .inl (exists_of_add_retarget ((List.mem_append.1 he).resolve_right (by simp)))
  | rankChanged c rank => simp [respond] at he
  | moduleStopped module =>
    rw [respond_moduleStopped, List.mem_append, List.mem_append] at he
    rcases he with (he | he) | he
    · obtain ⟨_, _, hremoval⟩ := List.mem_filterMap.1 he
      split at hremoval <;> cases hremoval
    · obtain ⟨id, t, ts, ht, hwaits, rfl⟩ := exists_of_add_retarget he
      rw [find?_left] at ht
      exact .inl ⟨id, t, ts, (Option.filter_eq_some_iff.1 ht).1, hwaits, rfl⟩
    · simp at he
  | registered f selector =>
    obtain ⟨ts, _, hf⟩ : ∃ ts, selector.resolve d.contextIds = some ts ∧
        Change.addElement (f.withTargets ts d.nextCopy) = .addElement e := by
      simpa [respond, track, Deployment.contextIds] using he
    cases hf
    exact .inr ⟨f, selector, ts, rfl, rfl⟩
  | unregistered j =>
    rw [changes_unregistered] at he
    split at he <;> simp at he

theorem Keyed.adds_moduleStopped (hw : w.Keyed) (h : Adds (w.respond d (.moduleStopped module)).1 id) :
    ∃ t, w.tracked.find? id = some t ∧ t.targets = none := by
  obtain ⟨e, he, rfl⟩ := h
  obtain ⟨j, t, ts, ht, hwaits, rfl⟩ | ⟨_, _, _, hevent, _⟩ := exists_of_add_respond he
  · exact ⟨t, hw j t ht ▸ ht, hwaits⟩
  · cases hevent

theorem Keyed.adds_respond (hw : w.Keyed) (h : Adds (w.respond d event).1 id) :
    w.tracked.contains id ∨ event.Registers id := by
  obtain ⟨e, he, rfl⟩ := h
  obtain ⟨j, t, ts, ht, _, rfl⟩ | ⟨f, selector, ts, rfl, rfl⟩ := exists_of_add_respond he
  · exact .inl (contains_iff.2 ⟨t, hw j t ht ▸ ht⟩)
  · exact .inr rfl

end Adding

section Foreign

/-- All that can happen to an element that waits, when contexts are looked up again, is that it is added. -/
theorem Keyed.mem_retarget (hw : w.Keyed) (hid : w.placed id = none)
    (hc : c ∈ (w.retarget contexts copy).1) (hcid : c.element? = some id) :
    ∃ e, c = .addElement e := by
  obtain ⟨⟨j, t⟩, hentry, hchange⟩ := List.mem_filterMap.1 hc
  have ht := OrdMap.mem_entries_iff.1 hentry
  obtain rfl : j = id := by
    have habout := (Tracked.about_change (hw j t ht) hchange).1
    simpa [hcid, eq_comm] using habout
  have hwaits := placed_eq_none_iff.1 hid t ht
  simp only [Tracked.change_of_waits hwaits] at hchange
  obtain ⟨ts, _, rfl⟩ := Option.map_eq_some_iff.1 hchange
  exact ⟨_, rfl⟩

theorem Keyed.mem_respond (hw : w.Keyed) (hid : w.placed id = none)
    (hc : c ∈ (w.respond d event).1) (hcid : c.element? = some id) :
    (∃ e, c = .addElement e) ∨ event = .unregistered id ∧ id ∉ w.pending := by
  cases event with
  | contextRegistered x =>
    rcases List.mem_cons.1 hc with rfl | hc
    · cases hcid
    · exact .inl (hw.mem_retarget hid hc hcid)
  | contextRemoved x =>
    rcases List.mem_append.1 hc with hc | hc
    · exact .inl (hw.mem_retarget hid hc hcid)
    · obtain rfl := List.mem_singleton.1 hc
      cases hcid
  | rankChanged x rank =>
    obtain rfl := List.mem_singleton.1 hc
    cases hcid
  | moduleStopped module =>
    rw [respond_moduleStopped, List.mem_append, List.mem_append] at hc
    rcases hc with (hc | hc) | hc
    · obtain ⟨⟨j, t⟩, hentry, hremoval⟩ := List.mem_filterMap.1 hc
      split at hremoval <;> cases hremoval
      rename_i hplaced
      cases hcid
      simp [placed_eq_none_iff.1 hid t (OrdMap.mem_entries_iff.1 hentry)] at hplaced
    · exact .inl (hw.left.mem_retarget (placed_left hid) hc hcid)
    · obtain ⟨_, _, rfl⟩ := List.mem_map.1 hc
      cases hcid
  | registered e selector =>
    obtain ⟨ts, _, rfl⟩ : ∃ ts, selector.resolve d.contextIds = some ts ∧
        Change.addElement (e.withTargets ts d.nextCopy) = c := by
      simpa [respond, track, Deployment.contextIds] using hc
    exact .inl ⟨_, rfl⟩
  | unregistered j =>
    rw [changes_unregistered] at hc
    split at hc
    · cases hc
    · rename_i hpending
      obtain rfl := List.mem_singleton.1 hc
      cases hcid
      exact .inr ⟨rfl, hpending⟩

theorem Keyed.placed_retarget_add (hw : w.Keyed) (hid : w.placed id = none)
    (h : (w.retarget contexts copy).2.placed id ≠ none) : Adds (w.retarget contexts copy).1 id := by
  obtain ⟨u, hu, htargets⟩ : ∃ u, (w.retarget contexts copy).2.tracked.find? id = some u ∧
      u.targets ≠ none := by
    simpa [placed_eq_none_iff] using h
  rw [find?_retarget] at hu
  obtain ⟨t, ht, rfl⟩ := Option.map_eq_some_iff.1 hu
  obtain ⟨ts, hts⟩ := Option.ne_none_iff_exists'.1 htargets
  have hchange := Tracked.change_of_waits (placed_eq_none_iff.1 hid t ht) id
    (t.selector.resolve contexts) copy
  have hresolve : t.selector.resolve contexts = some ts := hts
  refine ⟨t.element.withTargets ts copy,
    List.mem_filterMap.2 ⟨(id, t), OrdMap.mem_entries_iff.2 ht, ?_⟩, hw id t ht⟩
  exact hchange.trans (by rw [hresolve, Option.map_some])

theorem Keyed.placed_respond_add (hw : w.Keyed) (hid : w.placed id = none)
    (h : (w.respond d event).2.placed id ≠ none) : Adds (w.respond d event).1 id := by
  cases event with
  | contextRegistered x =>
    rw [respond_contextRegistered] at h ⊢
    obtain ⟨e, he, rfl⟩ := hw.placed_retarget_add hid h
    exact ⟨e, List.mem_cons_of_mem _ he, rfl⟩
  | contextRemoved x =>
    rw [respond_contextRemoved] at h ⊢
    obtain ⟨e, he, rfl⟩ := hw.placed_retarget_add hid h
    exact ⟨e, List.mem_append_left _ he, rfl⟩
  | rankChanged x rank => exact absurd hid h
  | moduleStopped module =>
    rw [respond_moduleStopped] at h ⊢
    obtain ⟨e, he, rfl⟩ := hw.left.placed_retarget_add (placed_left hid) h
    exact ⟨e, List.mem_append_left _ (List.mem_append_right _ he), rfl⟩
  | registered e selector =>
    have hfind := find?_registered (w := w) (d := d) e selector id
    rw [placed, hfind] at h
    split at h
    · rename_i he
      obtain ⟨ts, hts⟩ : ∃ ts, selector.resolve d.contextIds = some ts := by
        simpa [Tracked.placed, Option.ne_none_iff_exists'] using h
      refine ⟨e.withTargets ts d.nextCopy, ?_, he.symm⟩
      rw [Deployment.contextIds] at hts
      simp [respond, track, hts]
    · exact absurd hid h
  | unregistered j =>
    have hfind := find?_unregistered (w := w) (d := d) j id
    rw [placed, hfind] at h
    split at h
    · exact absurd rfl h
    · exact absurd hid h

theorem Keyed.respond_foreign (hw : w.Keyed) (hd : d.placed id ≠ none) (hid : w.placed id = none)
    (hevent : ¬ (event = .unregistered id ∧ id ∉ w.pending))
    (hm : d.Becomes (w.respond d event).1 m) :
    (∀ c ∈ (w.respond d event).1, c.element? ≠ some id) ∧
      (w.respond d event).2.placed id = none := by
  have hadds : ¬ Adds (w.respond d event).1 id := by
    intro hadds
    obtain ⟨s, hs⟩ := Option.ne_none_iff_exists'.1 (mt placed_eq_none.2 hd)
    have hremoves := (hm.revives hs hadds).removes
    obtain ⟨e, he⟩ := (hw.mem_respond hid hremoves rfl).resolve_right hevent
    cases he
  refine ⟨fun c hc hcid => ?_, by_contra fun h => hadds (hw.placed_respond_add hid h)⟩
  obtain ⟨e, rfl⟩ := (hw.mem_respond hid hc hcid).resolve_right hevent
  exact hadds ⟨e, hc, Option.some.inj hcid⟩

end Foreign

end Whiteboard

end ServletContainer
