import ServletContainer.Deployment.Snapshot
import ServletContainer.Proofs.Deployment.Effects
import ServletContainer.Proofs.Deployment.Withdrawn
import ServletContainer.Proofs.Server.Arbitration

/-! Taking a new element out again undoes putting it in. The changes cancel out (`Becomes.undone`), and
where elements are enabled in a complete deployment depends on what is deployed alone
(`Complete.eq_of_blank`), so that all who had to make room come back (`submit_undone`). Only the numbers
that copies of elements get go on. -/
namespace ServletContainer

namespace Deployment

variable {d d₁ d₂ e : Deployment} {x : Element}

theorem Becomes.undone (hd : d.Remembers) (h : d.Becomes [.addElement x, .removeElement x.id] e) :
    e = { d with nextCopy := e.nextCopy } := by
  obtain ⟨a, ha, h⟩ := becomes_cons.1 h
  obtain ⟨b, hb, h⟩ := becomes_cons.1 h
  obtain rfl := becomes_nil.1 h
  obtain ⟨hnew, rfl⟩ := addElement_ok ha
  obtain ⟨_, rfl⟩ := removeElement_ok hb
  simp only [OrdMap.erase_insert hnew]
  exact Remembers.prune_eq (d := { d with nextCopy := max d.nextCopy (x.copy + 1) }) hd

theorem eq_of_blank (h : d.blank = e.blank) (hid : ∀ id, d.enabledIn id = e.enabledIn id) : d = e := by
  have helements : d.elements = e.elements := by
    refine OrdMap.ext_find? fun id => ?_
    cases hs : d.elements.find? id with
    | none =>
      cases ht : e.elements.find? id with
      | none => rfl
      | some t =>
        obtain ⟨s, hs', _⟩ := find?_of_blank h.symm ht
        cases hs.symm.trans hs'
    | some s =>
      obtain ⟨t, ht, hts⟩ := find?_of_blank h hs
      have henabled := hid id
      rw [enabledIn_of_find? hs, enabledIn_of_find? ht] at henabled
      rw [ht, show s = t from congrArg₂ Deployed.mk hts.symm henabled]
  obtain ⟨hpolicy, hdefault, hcontexts, _, hwithdrawn, hcopy⟩ := Deployment.mk.inj h
  cases d
  cases e
  simp_all

theorem Complete.eq_of_blank (hd : d.Complete) (he : e.Complete) (h : d.blank = e.blank) : d = e :=
  Deployment.eq_of_blank h fun id => by rw [hd id, he id, arbitrated_of_blank h id]

theorem not_revives_of_singleton (c : Change) (id : ElementId) : ¬ Revives [c] id := by
  rintro ⟨as, e, bs, hcs, _, hr⟩
  cases as with
  | nil => cases hr
  | cons a as => simp at hcs

/-- Two batches that put a new element in and take it out again leave everything as it was. -/
theorem Commits.undone (h₁ : d.Commits [.addElement x] d₁) (h₂ : d₁.Commits [.removeElement x.id] d₂)
    (hk : d.Keyed) (hc : d.Complete) (hd : d.Remembers) :
    d₂ = { d with nextCopy := d₂.nextCopy } := by
  have hc₁ := h₁.complete hk hc (not_revives_of_singleton _)
  have hc₂ := h₂.complete (h₁.keyed hk) hc₁ (not_revives_of_singleton _)
  obtain ⟨m₁, hm₁, hb₁⟩ := h₁.blank
  obtain ⟨m₂, hm₂, hb₂⟩ := h₂.blank
  have hboth : d.blank.Becomes [.addElement x, .removeElement x.id] m₂.blank :=
    becomes_append.2 ⟨m₁.blank, hm₁.blank, hb₁ ▸ hm₂.blank⟩
  have hrestored := hboth.undone fun t p hp => (isTargeted_blank d t).trans (hd t p hp)
  have hcopy : d₂.nextCopy = m₂.nextCopy := congrArg (·.nextCopy) hb₂
  refine hc₂.eq_of_blank (e := { d with nextCopy := d₂.nextCopy }) (fun id => hc id) ?_
  rw [hb₂, hrestored, hcopy]
  rfl

section Switching

variable {before after : Deployment} {refresh refresh' : OrdSet ContextPath} {p : ContextPath}
  {c : Option LogicalContext}

theorem activate_mem_effects_comm : .activate x p c ∈ effects after before refresh' ↔
    .deactivate x p c ∈ effects before after refresh := by
  rw [activate_mem_effects, deactivate_mem_effects]
  simp only [isReplaced_comm]

end Switching

end Deployment

open Deployment

section Runs

variable (config : ServerConfig) (engine : Engine) (pool : Pool) {steps : List Server.Step}
  {l₁ l₂ : String} {r₁ r₂ : Report} {s₁ s₂ : Server} {x : Element}

theorem run_remembers (steps : List Server.Step) :
    ((Server.new config engine pool).run steps).deployment.Remembers :=
  Server.run_invariant (fun _ _ => nofun) (fun _ _ _ hd h => h.remembers hd) config engine pool steps

/-- Unregistering undoes registering. If no batch has removed an element and added one of its number
again, then two batches of which one adds a new element and the other removes it leave the deployment
as it was but for the number of the next copy, so that the pictures of it are the same. What the first
switches off, the second switches on in the same mounts, under the same contexts, and the other way
around. -/
theorem submit_undone (hsteps : ∀ b, .submit b ∈ steps → ∀ id, ¬ Revives b.changes id)
    (h₁ : ((Server.new config engine pool).run steps).submit ⟨l₁, [.addElement x]⟩ = (.ok r₁, s₁))
    (h₂ : s₁.submit ⟨l₂, [.removeElement x.id]⟩ = (.ok r₂, s₂)) :
    let d := ((Server.new config engine pool).run steps).deployment
    s₂.deployment = { d with nextCopy := s₂.deployment.nextCopy } ∧
      s₂.deployment.snapshot = d.snapshot ∧
      ∀ e p c, (.activate e p c ∈ r₂.effects ↔ .deactivate e p c ∈ r₁.effects) ∧
        (.deactivate e p c ∈ r₂.effects ↔ .activate e p c ∈ r₁.effects) := by
  intro d
  obtain ⟨hk, hc⟩ := run_complete config engine pool hsteps
  have hback : s₂.deployment = { d with nextCopy := s₂.deployment.nextCopy } :=
    (Server.submit_ok h₁).undone (Server.submit_ok h₂) hk hc (run_remembers config engine pool steps)
  have heffects (refresh : OrdSet ContextPath) :
      s₁.deployment.effects s₂.deployment refresh = s₁.deployment.effects d refresh := by
    rw [hback]
    rfl
  refine ⟨hback, by rw [hback]; rfl, fun e p c => ?_⟩
  rw [Server.effects_submit h₁, Server.effects_submit h₂, heffects]
  exact ⟨activate_mem_effects_comm, activate_mem_effects_comm.symm⟩

/-- An element of higher rank takes one of the two mounts of another, which under the strict policy has
to leave the other mount as well, to a third element. All this is undone. -/
theorem submit_undone_cascade :
    let context (id : ContextId) : LogicalContext := { id, path := ⟨"/" ++ id⟩, order := 0 }
    let x : Element := { Element.catchAll 3 ["c2", "c4"] with rank := 1 }
    let b : Batch := ⟨"deploy", [.addContext (context "c1"), .addContext (context "c2"),
      .addContext (context "c4"), .addElement (.catchAll 1 ["c1", "c2"]),
      .addElement (.catchAll 2 ["c1"])]⟩
    let s := (Server.new {} .idle {}).run [.start, .submit b]
    let s₁ := (s.submit ⟨"add", [.addElement x]⟩).2
    let s₂ := (s₁.submit ⟨"remove", [.removeElement x.id]⟩).2
    (s.deployment.enabledIn 1 = .ofList [⟨"/c1"⟩, ⟨"/c2"⟩] ∧ s.deployment.enabledIn 2 = ∅) ∧
      (s₁.deployment.enabledIn 1 = ∅ ∧ s₁.deployment.enabledIn 2 = .ofList [⟨"/c1"⟩]) ∧
      s₂.deployment.snapshot = s.deployment.snapshot := by
  intro context x b s s₁ s₂
  have hsteps : ∀ b', .submit b' ∈ [Server.Step.start, .submit b] → ∀ id, ¬ Revives b'.changes id := by
    intro b' hb id hr
    obtain rfl : b' = b := by simpa using hb
    exact absurd hr.removes (by simp [b])
  obtain ⟨r₁, h₁⟩ := exists_of_toBool (x := s.submit ⟨"add", [.addElement x]⟩) (by decide +kernel)
  obtain ⟨r₂, h₂⟩ := exists_of_toBool (x := s₁.submit ⟨"remove", [.removeElement x.id]⟩)
    (by decide +kernel)
  obtain ⟨_, hsnapshot, _⟩ := submit_undone {} .idle {} hsteps h₁ h₂
  exact ⟨by decide +kernel, by decide +kernel, hsnapshot⟩

end Runs

end ServletContainer
