import ServletContainer.Proofs.Alias.Registration
import ServletContainer.Proofs.Deployment.Entries

/-! What is registered under an alias always wins. As long as nobody else touches dynamic elements, every
dynamic element serves an alias, so that no element that comes before it has a slot in common with it
(`Presides.arbitrated_eq`); calls and batches keep it so, and it is enabled wherever it is mapped
(`reached_enabled`). -/
namespace ServletContainer

def Change.Declares (d : Deployment) : Change → Prop
  | .addElement e => e.dynamic = false
  | .removeElement id | .retarget id _ => ∀ e, d.placed id = some e → e.dynamic = false
  | _ => True

namespace Aliases

open Deployment

variable {as left : Aliases} {s s₀ : Server} {d d' : Deployment} {a : String} {x : Alias} {e : Element}
  {y : Deployed} {cs : List Change} {ids : List ElementId}

theorem Serves.original (h : Serves e a) : Serves e.original a :=
  ⟨h.name, h.patterns, h.space, h.dynamic⟩

theorem Serves.of_original (h : Serves e.original a) : Serves e a :=
  ⟨h.name, h.patterns, h.space, h.dynamic⟩

/-- Aliases are served by the dynamic elements, each of which was arbitrated last with all others. -/
structure Presides (as : Aliases) (d : Deployment) : Prop where
  keyed : d.Keyed
  valid : ∀ a x, as.entries.find? a = some x → isValid a
  served : ∀ a x, as.entries.find? a = some x → ∃ e, d.placed x.element = some e ∧ Serves e a
  settled : ∀ a x, as.entries.find? a = some x → d.enabledIn x.element = d.arbitrated x.element
  aliased : ∀ id e, d.placed id = some e → e.dynamic →
    ∃ a x, as.entries.find? a = some x ∧ x.element = id

theorem Presides.find? (h : Presides as d) (ha : as.entries.find? a = some x) :
    ∃ y, d.elements.find? x.element = some y ∧ Serves y.element a := by
  obtain ⟨e, he, hserves⟩ := h.served a x ha
  obtain ⟨y, hy, rfl⟩ := Option.map_eq_some_iff.1 he
  exact ⟨y, hy, hserves.of_original⟩

theorem Presides.alias_unique {b : String} {z : Alias} (h : Presides as d)
    (ha : as.entries.find? a = some x) (hb : as.entries.find? b = some z)
    (hid : x.element = z.element) : a = b := by
  obtain ⟨e, he, hea⟩ := h.served a x ha
  obtain ⟨f, hf, hfb⟩ := h.served b z hb
  rw [hid, hf] at he
  cases he
  exact hea.name.symm.trans hfb.name

section Arbitration

theorem Presides.arbitrated_eq (h : Presides as d) (ha : as.entries.find? a = some x)
    (hy : d.elements.find? x.element = some y) :
    d.arbitrated x.element = OrdSet.ofList (d.physicalOf y.element) := by
  obtain ⟨_, hy', hserves⟩ := h.find? ha
  cases hy.symm.trans hy'
  refine arbitrated_of_unrivalled h.keyed hy fun b hb hbetter ⟨k, hkb, hky⟩ => ?_
  obtain ⟨id, z, hz, rfl⟩ := mem_candidates.1 hb
  have hdynamic : z.element.dynamic := TieBreak.dynamic_of_lt hbetter hserves.dynamic
  obtain ⟨b, w, hb, rfl⟩ := h.aliased id z.element.original (by simp [placed, hz]) hdynamic
  obtain ⟨_, hz', hserves'⟩ := h.find? hb
  cases hz.symm.trans hz'
  obtain rfl := hserves'.eq_of_mem_slots hserves (h.valid b w hb) (h.valid a x ha)
    (Candidate.mem_keys.1 hkb).2.2 (Candidate.mem_keys.1 hky).2.2
  cases ha.symm.trans hb
  cases hy.symm.trans hz
  exact Candidate.Better.irrefl _ hbetter

end Arbitration

section Steps

theorem Presides.added {owner : Module} (h : Presides as d) (hc : d.Commits [.addElement e] d')
    (hvalid : isValid a) (hfree : as.entries.find? a = none) (he : Serves e a) :
    Presides ⟨as.entries.insert a ⟨owner, e.id⟩⟩ d' := by
  obtain ⟨hnew, hplaced⟩ := hc.placed_addElement
  have hfind (b : String) : (as.entries.insert a ⟨owner, e.id⟩).find? b =
      if b = a then some ⟨owner, e.id⟩ else as.entries.find? b := OrdMap.find?_insert_eq ..
  have hkept (id : ElementId) (hid : d.enabledIn id = d.arbitrated id) :
      d'.enabledIn id = d'.arbitrated id :=
    hc.enabledIn_kept h.keyed hid fun hr => by simpa using hr.removes
  refine ⟨hc.keyed h.keyed, fun b z hb => ?_, fun b z hb => ?_, fun b z hb => ?_,
    fun id f hf hdynamic => ?_⟩
  · rw [hfind] at hb
    split at hb
    · rename_i hab
      exact hab ▸ hvalid
    · exact h.valid b z hb
  · rw [hfind] at hb
    split at hb
    · rename_i hab
      cases hb
      exact ⟨e.original, by simp [hplaced], hab ▸ he.original⟩
    · obtain ⟨f, hf, hserves⟩ := h.served b z hb
      have hne : z.element ≠ e.id := by
        rintro hid
        simp [hid, hnew] at hf
      exact ⟨f, by rw [hplaced, if_neg hne, hf], hserves⟩
  · rw [hfind] at hb
    split at hb
    · cases hb
      have hnone := placed_eq_none.1 hnew
      exact hkept e.id ((enabledIn_of_none hnone).trans (arbitrated_of_none h.keyed hnone).symm)
    · exact hkept z.element (h.settled b z hb)
  · rw [hplaced] at hf
    split at hf
    · rename_i hid
      exact ⟨a, ⟨owner, e.id⟩, by simp [hfind], hid.symm⟩
    · obtain ⟨b, z, hb, rfl⟩ := h.aliased id f hf hdynamic
      have hne : b ≠ a := by
        rintro rfl
        simp [hfree] at hb
      exact ⟨b, z, by simp [hfind, hne, hb], rfl⟩

theorem Presides.dropped (h : Presides as d) (hids : as.Drops ids left)
    (hc : d.Commits (ids.map .removeElement) d') : Presides left d' := by
  have hplaced := hc.placed_removeElements
  have hstays {b : String} {z : Alias} (hb : left.entries.find? b = some z) : z.element ∉ ids :=
    hids.not_mem (fun _ _ _ _ => h.alias_unique) hb
  refine ⟨hc.keyed h.keyed, fun b z hb => h.valid b z (hids.kept b z hb), fun b z hb => ?_,
    fun b z hb => ?_, fun id f hf hdynamic => ?_⟩
  · obtain ⟨f, hf, hserves⟩ := h.served b z (hids.kept b z hb)
    exact ⟨f, by rw [hplaced, if_neg (hstays hb), hf], hserves⟩
  · refine hc.enabledIn_kept h.keyed (h.settled b z (hids.kept b z hb)) fun hr => ?_
    obtain ⟨f, hf, _⟩ := hr.adds
    simp at hf
  · rw [hplaced] at hf
    split at hf
    · cases hf
    · rename_i hmem
      obtain ⟨b, z, hb, rfl⟩ := h.aliased id f hf hdynamic
      cases hleft : left.entries.find? b with
      | none => exact absurd ((hids.dropped z.element).2 ⟨b, z, hb, hleft, rfl⟩) hmem
      | some w =>
        cases hb.symm.trans (hids.kept b w hleft)
        exact ⟨b, z, hleft, rfl⟩

/-- A batch that leaves dynamic elements alone does not touch what serves an alias. -/
theorem Presides.not_removed (h : Presides as d) (hcs : ∀ c ∈ cs, c.Declares d)
    (ha : as.entries.find? a = some x) : .removeElement x.element ∉ cs := by
  intro hmem
  obtain ⟨e, he, hserves⟩ := h.served a x ha
  have hstatic : e.dynamic = false := hcs _ hmem e he
  simp [hserves.dynamic] at hstatic

theorem Presides.declared (h : Presides as d) (hcs : ∀ c ∈ cs, c.Declares d)
    (hc : d.Commits cs d') : Presides as d' := by
  have hsame {b : String} {z : Alias} (hb : as.entries.find? b = some z) :
      d'.placed z.element = d.placed z.element := by
    obtain ⟨e, he, hserves⟩ := h.served b z hb
    refine (hc.traces.placed _).trans (Change.foldl_onElement_of_ne (fun c hmem hid => ?_) _)
    cases c with
    | addElement f =>
      -- what is deployed can only be added after it was removed
      obtain ⟨m, hm, _⟩ := hc
      obtain ⟨y, hy, _⟩ := Option.map_eq_some_iff.1 he
      have hrevives := hm.revives hy ⟨f, hmem, Option.some.inj hid⟩
      exact h.not_removed hcs hb hrevives.removes
    | removeElement j =>
      cases hid
      exact h.not_removed hcs hb hmem
    | retarget j ts =>
      cases hid
      have hstatic : e.dynamic = false := hcs _ hmem e he
      simp [hserves.dynamic] at hstatic
    | _ => cases hid
  refine ⟨hc.keyed h.keyed, h.valid, fun b z hb => ?_, fun b z hb => ?_, fun id f hf hdynamic => ?_⟩
  · rw [hsame hb]
    exact h.served b z hb
  · exact hc.enabledIn_kept h.keyed (h.settled b z hb) fun hr => h.not_removed hcs hb hr.removes
  · rw [hc.traces.placed] at hf
    obtain ⟨g, hg, hg'⟩ := Change.exists_of_foldl_onElement (p := fun e => e.dynamic = true)
      (fun _ _ h => h) (fun f hf => Bool.eq_false_iff.1 (hcs _ hf)) hf hdynamic
    exact h.aliased id g hg hg'

theorem Presides.called {r : Aliases × Server} (h : Presides as s.deployment) (hr : Called as s r) :
    Presides r.1 r.2.deployment := by
  cases hr with
  | refused t ht => exact ht.deployment ▸ h
  | added a owner e u t label report hvalid hfree he hid hu hcount hsubmit =>
    exact h.added (hu.deployment ▸ Server.submit_ok hsubmit) hvalid hfree he
  | dropped ids left t label report hids hsubmit => exact h.dropped hids (Server.submit_ok hsubmit)

theorem Presides.submit {b : Batch} (h : Presides as s.deployment)
    (hb : ∀ c ∈ b.changes, c.Declares s.deployment) : Presides as (s.submit b).2.deployment := by
  rcases s.deployment_submit b with heq | hcommits
  · exact heq ▸ h
  · exact h.declared hb hcommits

end Steps

section Reached

/-- How far the aliases and the server get by calls, and batches that leave dynamic elements alone.
Meanwhile requests are served, elements built and classes registered, and all may befall the engine. -/
inductive Reached (s₀ : Server) : Aliases → Server → Prop
  | start : Reached s₀ {} s₀
  | call {as : Aliases} {s : Server} (c : Call) : Reached s₀ as s →
      Reached s₀ (as.call s c).1 (as.call s c).2
  | submit {as : Aliases} {s : Server} (b : Batch) : Reached s₀ as s →
      (∀ c ∈ b.changes, c.Declares s.deployment) → Reached s₀ as (s.submit b).2
  | meanwhile {as : Aliases} {s : Server} (engine : Engine) (pool : Pool) (counters : Counters)
      (nextService : Nat) : Reached s₀ as s →
      Reached s₀ as { s with engine, pool, counters, nextService }

theorem Reached.presides (h : Reached s₀ as s) (hs₀ : ∀ id, s₀.deployment.elements.find? id = none) :
    Presides as s.deployment := by
  induction h with
  | start =>
    refine ⟨fun id y hy => ?_, nofun, nofun, nofun, fun id e he => ?_⟩
    · rw [hs₀] at hy
      cases hy
    · rw [placed_eq_none.2 (hs₀ id)] at he
      cases he
  | call c _ ih => exact ih.called (called_call _ _ c)
  | submit b _ hb ih => exact ih.submit hb
  | meanwhile _ _ _ _ _ ih => exact ih

/-- On a server with nothing deployed at first, the element of every alias is enabled in all mounts that
it is mapped to, whatever else was deployed, at whatever rank. -/
theorem reached_enabled (hs₀ : ∀ id, s₀.deployment.elements.find? id = none) (h : Reached s₀ as s) :
    ∀ a x, as.entries.find? a = some x → ∃ y, s.deployment.elements.find? x.element = some y ∧
      y.element.name = a ∧ y.element.dynamic ∧
      y.enabledIn = OrdSet.ofList (s.deployment.physicalOf y.element) ∧
      s.deployment.shadowedIn y = [] := by
  intro a x ha
  have hpresides := h.presides hs₀
  obtain ⟨y, hy, hserves⟩ := hpresides.find? ha
  have henabled : y.enabledIn = OrdSet.ofList (s.deployment.physicalOf y.element) := by
    rw [← enabledIn_of_find? hy, hpresides.settled a x ha, hpresides.arbitrated_eq ha hy]
  refine ⟨y, hy, hserves.name, hserves.dynamic, henabled, ?_⟩
  rw [shadowedIn, List.filter_eq_nil_iff]
  intro p hp
  simp [henabled, hp]

/-- A servlet of rank 100 loses its pattern to an alias that is registered after it was deployed. -/
theorem reached_enabled_ranked :
    let s₀ := (Server.new {} .idle {}).start.2
    (∀ id, s₀.deployment.elements.find? id = none) ∧
      ∃ as s, Reached s₀ as s ∧ as.names = ["/", "/hello"] ∧ s.deployment.isEnabled 1 = false ∧
        ∀ a x, as.entries.find? a = some x → ∃ y, s.deployment.elements.find? x.element = some y ∧
          y.element.name = a ∧ y.element.dynamic ∧
          y.enabledIn = OrdSet.ofList (s.deployment.physicalOf y.element) ∧
          s.deployment.shadowedIn y = [] := by
  intro s₀
  let declared := { Element.catchAll 1 ["main"] with patterns := .urls [.exact "/hello"], rank := 100 }
  let owner : Module := ⟨1, "app"⟩
  have hs₀ (id : ElementId) : s₀.deployment.elements.find? id = none := by
    have hempty : s₀.deployment.elements = ∅ := by decide +kernel
    rw [hempty]
    rfl
  have hreached : Reached s₀ _ _ :=
    .call (.register owner "/hello" (.resources "www") (some "main"))
      (.call (.register owner "/" (.resources "") (some "main"))
        (.submit ⟨"declared", [.addContext ⟨"main", .root, 0, 2, none, .standard, ∅, {}⟩,
            .addElement declared]⟩
          (.meanwhile .idle {} ⟨2, 3⟩ 1 .start) (by simp [Change.Declares, declared, Element.catchAll])))
  exact ⟨hs₀, _, _, hreached, by decide +kernel, by decide +kernel, reached_enabled hs₀ hreached⟩

end Reached

end Aliases

end ServletContainer
