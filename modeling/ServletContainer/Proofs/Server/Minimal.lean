import ServletContainer.Proofs.Deployment.Copies
import ServletContainer.Proofs.Server.Farewells

/-! What a batch leaves in peace. An element that is enabled in a mount before and after a batch is left
alone there exactly if the batch keeps its copy (`Keeps`); it is not enough that the batch leads to the
same element again. Nor is it enough for the engine to be left alone that the batch leads to the same
deployment (`Server.submit_keeps_iff`): to retarget an element to where it is restarts it. -/
namespace ServletContainer

open Deployment

theorem Change.refreshed_eq_empty {cs : List Change} (h : ∀ p, .refreshFilters p ∉ cs) :
    Change.refreshed cs = ∅ := by
  refine OrdSet.ext_mem fun p => iff_of_false (fun hp => ?_) (by simp)
  obtain ⟨c, hc, hcp⟩ := List.mem_filterMap.1 (OrdSet.mem_ofList.1 hp)
  cases c <;> simp at hcp
  exact h _ hc

theorem Deployment.callsAt_eq_nil_iff {before after : Deployment} {id : ElementId} {p : ContextPath}
    {x y : Deployed} (hb : before.Coherent) (hx : before.elements.find? id = some x)
    (hy : after.elements.find? id = some y) (hp : p ∈ x.enabledIn.elems) (hp' : p ∈ y.enabledIn.elems)
    (hkind : x.element.kind = .listener) :
    callsAt before after (id, p) = [] ↔ y.element = x.element := by
  have hattends : before.Attends (id, p) := ⟨x, hx, hkind, hp⟩
  by_cases heq : y.element = x.element
  · have hleaves : ¬ before.differs after (id, p) := fun h =>
      (mem_enabledOnlyIn_iff_ne hx hy hp hp').1 (differs_iff.1 h).2 heq
    have hcomes : ¬ after.differs before (id, p) := fun h =>
      (mem_enabledOnlyIn_iff_ne hy hx hp' hp).1 (differs_iff.1 h).2 heq.symm
    rw [callsAt, if_neg hleaves, if_neg hcomes]
    exact iff_of_true rfl heq
  · have hleaves : before.differs after (id, p) :=
      differs_iff.2 ⟨hattends, (mem_enabledOnlyIn_iff_ne hx hy hp hp').2 heq⟩
    obtain ⟨c, hc⟩ := hb.contextAt_eq_some hattends
    obtain ⟨ws, hws, _⟩ := callsAt_of_differs hleaves hc
    rw [hws]
    exact iff_of_false (List.cons_ne_nil _ _) heq

namespace Server

variable {s t : Server} {b : Batch} {r : Report}

theorem exists_run_eq (s : Server) (commands : List Command) :
    ∃ steps, s.follow commands = s.run steps := by
  induction commands generalizing s with
  | nil => exact ⟨[], rfl⟩
  | cons c commands ih =>
    obtain ⟨a, ha⟩ := s.exists_step_eq c
    obtain ⟨steps, hsteps⟩ := ih (s.step a)
    exact ⟨a :: steps, by rw [follow, List.foldl_cons, ha]; exact hsteps⟩

theorem coherent_numbered_follow (config : ServerConfig) (engine : Engine) (pool : Pool)
    (commands : List Command) :
    let d := ((new config engine pool).follow commands).deployment
    d.Coherent ∧ d.Numbered := by
  obtain ⟨steps, hsteps⟩ := exists_run_eq (new config engine pool) commands
  rw [hsteps]
  exact run_invariant (P := fun d => d.Coherent ∧ d.Numbered)
    (fun policy context => ⟨coherent_empty policy context, fun _ _ h => nomatch h⟩)
    (fun _ _ _ ⟨hd, hn⟩ h => ⟨h.coherent hd, h.numbered hn⟩) config engine pool steps

theorem engine_of_effects_eq_nil (h : s.submit b = (.ok r, t)) (hnil : r.effects = []) :
    t.engine = s.engine.committed.2 ∧ t.pool = s.pool := by
  obtain ⟨m, hm, hd⟩ := submit_ok h
  have hnone : s.deployment.effects (s.deployment.rearbitrate m).1 (Change.refreshed b.changes) = [] := by
    rw [← hd, ← effects_submit h, hnil]
  have happly : s.applyEffects [] = (.ok s.engine, s.pool) := rfl
  rw [submit_of_becomes hm] at h
  simp only [hnone, happly] at h
  cases h
  exact ⟨rfl, rfl⟩

/-- What a committed batch leaves alone. An element that is enabled in a mount before and after is neither
switched off nor on there exactly if the last change that places it, if there is one, adds the copy that
was there; and exactly then a listener of the in-process engine is not called there. A batch that refreshes
no filters and leads to the same deployment has no effects exactly if it keeps the copies of all that is
enabled. With no effects, the engine is not asked. -/
theorem submit_keeps_iff (config : ServerConfig) (engine : Engine) (pool : Pool)
    (commands : List Command)
    (h : ((new config engine pool).follow commands).submit b = (.ok r, t)) :
    let s := (new config engine pool).follow commands
    (∀ id x y p, s.deployment.elements.find? id = some x → t.deployment.elements.find? id = some y →
      p ∈ x.enabledIn.elems → p ∈ y.enabledIn.elems →
        ((∀ f ∈ r.effects, f.post? ≠ some (id, p)) ↔ Keeps b.changes x.element) ∧
        (engine = .inProcess {} → x.element.kind = .listener →
          (t.words (id, p) = s.words (id, p) ↔ Keeps b.changes x.element))) ∧
    ((∀ p, .refreshFilters p ∉ b.changes) → s.deployment.Same t.deployment →
      (r.effects = [] ↔ ∀ id x, s.deployment.elements.find? id = some x → x.enabledIn ≠ ∅ →
        Keeps b.changes x.element)) ∧
    (r.effects = [] → t.engine = s.engine.committed.2 ∧ t.pool = s.pool) := by
  intro s
  obtain ⟨hb, hn⟩ := coherent_numbered_follow config engine pool commands
  have hcommits := submit_ok h
  have ha := hcommits.coherent hb
  have heffects := effects_submit h
  refine ⟨fun id x y p hx hy hp hp' => ⟨?_, fun hengine hkind => ?_⟩, fun hrefresh hsame => ?_,
    engine_of_effects_eq_nil h⟩
  · rw [heffects, ← hcommits.element_eq_iff hb.keyed hn hx hy]
    exact not_switched_iff hb.keyed ha.keyed hx hy hp hp'
  · subst hengine
    have hs : s.Tending := (tending_new config pool).follow commands
    obtain ⟨i, hi, _⟩ := hs.attended
    have hwords := words_submit hs.mirrored hi b (id, p)
    rw [show s.submit b = (.ok r, t) from h] at hwords
    rw [hwords, List.append_right_eq_self, callsAt_eq_nil_iff hb hx hy hp hp' hkind]
    exact hcommits.element_eq_iff hb.keyed hn hx hy
  · rw [heffects, Change.refreshed_eq_empty hrefresh, hsame.effects_eq_nil_iff hb ha]
    constructor
    · intro hall id x hx hne
      obtain ⟨y, hy, _⟩ := hsame.exists_find? hx
      exact (hcommits.element_eq_iff hb.keyed hn hx hy).1 (hall id x y hx hy hne)
    · intro hkeeps id x y hx hy hne
      exact (hcommits.element_eq_iff hb.keyed hn hx hy).2 (hkeeps id x hx hne)

/-- A mount point is made and removed again. -/
theorem submit_keeps_iff_cancelled :
    let s := (new {} (.inProcess {}) {}).follow [.start, .submit ⟨"add", [.addElement (greeter 1 [])]⟩]
    let b : Batch := ⟨"pin", [.addPhysical ⟨"/m"⟩, .removePhysical ⟨"/m"⟩]⟩
    ∃ r t, s.submit b = (.ok r, t) ∧ s.deployment.Same t.deployment ∧ r.effects = [] ∧
      t.engine = s.engine.committed.2 ∧ t.words (1, .root) = s.words (1, .root) := by
  intro s b
  let x : Deployed := ⟨greeter 1 [], .ofList [.root]⟩
  obtain ⟨r, h⟩ := exists_of_toBool (x := s.submit b) (by decide +kernel)
  have hsame : s.deployment.Same (s.submit b).2.deployment := by decide +kernel
  obtain ⟨heach, hall, hidle⟩ := submit_keeps_iff {} (.inProcess {}) {} _ h
  obtain ⟨_, hlistener⟩ := heach 1 x x .root (by decide +kernel) (by decide +kernel) (by decide) (by decide)
  have hkeeps (e : Element) : Keeps b.changes e := by simp [Keeps, lastPlacing, b, Change.places]
  have hnil : r.effects = [] := (hall (by simp [b]) hsame).2 fun _ y _ _ => hkeeps y.element
  exact ⟨r, _, h, hsame, hnil, (hidle hnil).1, (hlistener rfl rfl).2 (hkeeps _)⟩

/-- A listener that is retargeted to where it is goes and comes again. -/
theorem retarget_in_place_restarts :
    let s := (new {} (.inProcess {}) {}).follow [.start, .submit ⟨"add", [.addElement (greeter 1 [])]⟩]
    let b : Batch := ⟨"retarget", [.retarget 1 []]⟩
    s.deployment.Same (s.submit b).2.deployment ∧
      (s.submit b).1.toOption.map (·.effects.map Effect.post?) = some [some (1, .root), some (1, .root)] ∧
      (s.words (1, .root)).map Prod.fst = [true] ∧
      ((s.submit b).2.words (1, .root)).map Prod.fst = [true, false, true] := by
  decide +kernel

end Server

end ServletContainer
