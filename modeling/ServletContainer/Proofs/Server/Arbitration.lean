import ServletContainer.Proofs.Server.Run

/-! Where elements are enabled on a server. As long as no batch revives an element, everything is
enabled as if all that is deployed were arbitrated from scratch (`run_resolveAll`). Whether two
batches may be joined to one depends on what they miss (`submit_append_iff`): a batch that takes an
element out and puts the same copy back leaves it disabled (`submit_append_revived`). -/
namespace ServletContainer

open Deployment

section Runs

variable (config : ServerConfig) (engine : Engine) (pool : Pool) {steps : List Server.Step}

theorem keyed_vacant (policy : Policy) (context : ContextId) :
    (Server.vacant policy context).Keyed := by
  intro id s hs
  cases hs

theorem complete_vacant (policy : Policy) (context : ContextId) :
    (Server.vacant policy context).Complete :=
  fun _ => (arbitrated_of_none (keyed_vacant policy context) rfl).symm

theorem run_sound (steps : List Server.Step) :
    let d := ((Server.new config engine pool).run steps).deployment
    d.Keyed ∧ d.Sound :=
  Server.run_invariant (P := fun d => d.Keyed ∧ d.Sound)
    (fun policy context => ⟨keyed_vacant policy context, (complete_vacant policy context).sound⟩)
    (fun _ _ _ ⟨hk, hs⟩ h => ⟨h.keyed hk, h.sound hk hs⟩) config engine pool steps

theorem run_complete (h : ∀ b, .submit b ∈ steps → ∀ id, ¬ Revives b.changes id) :
    let d := ((Server.new config engine pool).run steps).deployment
    d.Keyed ∧ d.Complete :=
  Server.run_induction (P := fun d => d.Keyed ∧ d.Complete)
    (A := fun cs => ∀ id, ¬ Revives cs id)
    (fun policy context => ⟨keyed_vacant policy context, complete_vacant policy context⟩)
    (fun _ hcs _ hr => hr.adds.elim fun e he => hcs e he.1)
    (fun _ _ _ hcs ⟨hk, hs⟩ h => ⟨h.keyed hk, h.complete hk hs hcs⟩) config engine pool h

/-- If no batch removes an element and adds one of its number again, every element is enabled where
arbitrating everything from scratch enables it, and nowhere if it is mapped to no mount. -/
theorem run_resolveAll (h : ∀ b, .submit b ∈ steps → ∀ id, ¬ Revives b.changes id) :
    let d := ((Server.new config engine pool).run steps).deployment
    (∀ id, d.resolver.resolveAll.enabled.find? id = (d.elements.find? id).bind fun s =>
        if d.physicalOf s.element = [] then none else some s.enabledIn) ∧
      ∀ id s, d.elements.find? id = some s → d.physicalOf s.element = [] → s.enabledIn = ∅ := by
  intro d
  obtain ⟨hk, hc⟩ : d.Keyed ∧ d.Complete := run_complete config engine pool h
  have harb {id : ElementId} {s : Deployed} (hs : d.elements.find? id = some s) :
      d.arbitrated id = s.enabledIn := (hc id).symm.trans (enabledIn_of_find? hs)
  refine ⟨fun id => ?_, fun id s hs hp => ?_⟩
  · rw [hk.find?_resolveAll]
    cases hs : d.elements.find? id with
    | none => rfl
    | some s => rw [Option.bind_some, Option.bind_some, harb hs]
  · rw [← harb hs, arbitrated_of_unmapped hk hs hp]

/-- Of three elements for the same paths the best one is enabled, and the next best one when that is removed
again. -/
theorem run_resolveAll_removed :
    let better (id : ElementId) (rank : Int) : Element := { Element.catchAll id with rank }
    let added : List Server.Step := [.start, .submit ⟨"add", [.addElement (.catchAll 1),
      .addElement (better 2 5), .addElement (better 3 9)]⟩]
    let steps := added ++ [.submit ⟨"remove", [.removeElement 3]⟩]
    let before := ((Server.new {} .idle {}).run added).deployment
    let d := ((Server.new {} .idle {}).run steps).deployment
    (before.isEnabled 3 ∧ ¬ before.isEnabled 2 ∧ ¬ before.isEnabled 1) ∧
      (∀ b, .submit b ∈ steps → ∀ id, ¬ Revives b.changes id) ∧
      d.resolver.resolveAll.enabled.find? 3 = none ∧
      d.resolver.resolveAll.enabled.find? 2 = some (.ofList [.root]) ∧
      d.resolver.resolveAll.enabled.find? 1 = some ∅ ∧ d.isEnabled 2 := by
  intro better added steps before d
  have hb : ∀ b, .submit b ∈ steps → ∀ id, ¬ Revives b.changes id := by
    intro b hb id hr
    rcases List.mem_append.1 hb with hb | hb
    · obtain rfl : b = ⟨"add", _⟩ := by simpa [added] using hb
      exact absurd hr.removes (by simp)
    · obtain rfl : b = ⟨"remove", _⟩ := by simpa using hb
      obtain ⟨e, he, _⟩ := hr.adds
      simp at he
  have hfind := (run_resolveAll {} .idle {} hb).1
  exact ⟨by decide +kernel, hb, (hfind 3).trans (by decide +kernel), (hfind 2).trans (by decide +kernel),
    (hfind 1).trans (by decide +kernel), by decide +kernel⟩

section Joining

variable {l₁ l₂ l : String} {xs ys : List Change} {r₁ r₂ r : Report} {s₁ s₂ t : Server}

/-- Two batches, and both of them in one: the deployments differ at most in where elements are
enabled, and an element is enabled in the same mounts exactly if the last of the two batches and the
joined one both miss it, or neither does. -/
theorem submit_append_iff
    (h₁ : ((Server.new config engine pool).run steps).submit ⟨l₁, xs⟩ = (.ok r₁, s₁))
    (h₂ : s₁.submit ⟨l₂, ys⟩ = (.ok r₂, s₂))
    (h : ((Server.new config engine pool).run steps).submit ⟨l, xs ++ ys⟩ = (.ok r, t)) :
    t.deployment.blank = s₂.deployment.blank ∧
      ∀ id, t.deployment.enabledIn id = s₂.deployment.enabledIn id ↔
        (Misses ((Server.new config engine pool).run steps).deployment (xs ++ ys) t.deployment id ↔
          Misses s₁.deployment ys s₂.deployment id) := by
  obtain ⟨hk, hs⟩ := run_sound config engine pool steps
  have hc₁ := Server.submit_ok h₁
  have hc₂ := Server.submit_ok h₂
  have hc := Server.submit_ok h
  exact ⟨hc₁.blank_append hc₂ hc, fun id => hc₁.enabledIn_append_iff hc₂ hc hk hs⟩

theorem submit_append_iff_put_back :
    let s := (Server.new {} .idle {}).run [.start, .submit ⟨"add", [.addElement (.catchAll 1)]⟩]
    let s₁ := (s.submit ⟨"remove", [.removeElement 1]⟩).2
    let s₂ := (s₁.submit ⟨"put back", [.addElement (.catchAll 1)]⟩).2
    let t := (s.submit ⟨"both", [.removeElement 1] ++ [.addElement (.catchAll 1)]⟩).2
    t.deployment.blank = s₂.deployment.blank ∧
      ¬ (Misses s.deployment ([.removeElement 1] ++ [.addElement (.catchAll 1)]) t.deployment 1 ↔
        Misses s₁.deployment [.addElement (.catchAll 1)] s₂.deployment 1) := by
  intro s s₁ s₂ t
  obtain ⟨r₁, h₁⟩ := exists_of_toBool (x := s.submit ⟨"remove", [.removeElement 1]⟩) (by decide +kernel)
  obtain ⟨r₂, h₂⟩ := exists_of_toBool (x := s₁.submit ⟨"put back", [.addElement (.catchAll 1)]⟩)
    (by decide +kernel)
  obtain ⟨r, h⟩ := exists_of_toBool
    (x := s.submit ⟨"both", [.removeElement 1] ++ [.addElement (.catchAll 1)]⟩) (by decide +kernel)
  obtain ⟨hb, hiff⟩ := submit_append_iff {} .idle {} h₁ h₂ h
  exact ⟨hb, fun hm => absurd ((hiff 1).2 hm) (by decide +kernel)⟩

/-- Batches may be joined if nothing is revived, neither in the joined batch nor before. -/
theorem submit_append_of_not_revives (hsteps : ∀ b, .submit b ∈ steps → ∀ id, ¬ Revives b.changes id)
    (hr : ∀ id, ¬ Revives (xs ++ ys) id)
    (h₁ : ((Server.new config engine pool).run steps).submit ⟨l₁, xs⟩ = (.ok r₁, s₁))
    (h₂ : s₁.submit ⟨l₂, ys⟩ = (.ok r₂, s₂))
    (h : ((Server.new config engine pool).run steps).submit ⟨l, xs ++ ys⟩ = (.ok r, t))
    (id : ElementId) : t.deployment.enabledIn id = s₂.deployment.enabledIn id := by
  obtain ⟨hk, hc⟩ := run_complete config engine pool hsteps
  have hc₁ := Server.submit_ok h₁
  have hc₂ := Server.submit_ok h₂
  have hct := Server.submit_ok h
  have hx (id : ElementId) : ¬ Revives xs id := fun hx => hr id (hx.append_right ys)
  have hy (id : ElementId) : ¬ Revives ys id := fun hy => hr id (hy.append_left xs)
  rw [hct.complete hk hc hr id, hc₂.complete (hc₁.keyed hk) (hc₁.complete hk hc hx) hy id]
  exact arbitrated_of_blank (hc₁.blank_append hc₂ hct) id

end Joining

/-- Removing an element and putting the same copy back: in two batches the element is enabled again,
in one batch it stays disabled. -/
theorem submit_append_revived :
    let s := (Server.new {} .idle {}).run [.start, .submit ⟨"add", [.addElement (.catchAll 1)]⟩]
    let s₁ := (s.submit ⟨"remove", [.removeElement 1]⟩).2
    let s₂ := (s₁.submit ⟨"put back", [.addElement (.catchAll 1)]⟩).2
    let t := (s.submit ⟨"both", [.removeElement 1, .addElement (.catchAll 1)]⟩).2
    (s.submit ⟨"remove", [.removeElement 1]⟩).1.toBool ∧
      (s₁.submit ⟨"put back", [.addElement (.catchAll 1)]⟩).1.toBool ∧
      (s.submit ⟨"both", [.removeElement 1, .addElement (.catchAll 1)]⟩).1.toBool ∧
      s₂.deployment.enabledIn 1 = OrdSet.ofList [.root] ∧ t.deployment.enabledIn 1 = ∅ := by
  decide +kernel

end Runs

end ServletContainer
