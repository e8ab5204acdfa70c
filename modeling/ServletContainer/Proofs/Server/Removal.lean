import ServletContainer.Proofs.Server.Mirror
import ServletContainer.Proofs.Server.Rollback

/-! Removing an element from a running server. The change itself is always valid, and the freed slots go
to those who get them when everything is arbitrated. But they were never looked at by the engine, which
takes them, and with them the removal, only if their classes are registered and their listeners provided
(`Server.submit_removeElement`). -/
namespace ServletContainer

/-- Whether an engine that checks classes can activate the element under a context: its class must be
registered, and the source of a listener must provide it. -/
def Pool.Supplies (pool : Pool) (e : Element) : Prop :=
  InProcess.knowsClass pool e ∧
    ∀ source, e.details = .listener source → pool.listeners.provides e.id source

namespace Deployment

variable {d d' : Deployment} {id j : ElementId} {s : Deployed} {p : ContextPath} {e : Element}

theorem exists_becomes_removeElement (h : d.elements.contains id) :
    ∃ m, d.Becomes [.removeElement id] m :=
  ⟨_, becomes_cons.2 ⟨_, if_pos h, becomes_nil.2 rfl⟩⟩

theorem Commits.find?_of_removeElement (h : d.Commits [.removeElement id] d')
    (hs : d'.elements.find? j = some s) :
    id ≠ j ∧ ∃ t, d.elements.find? j = some t ∧ t.element = s.element := by
  obtain ⟨m, hm, hblank⟩ := h.blank
  obtain ⟨t, ht, hts⟩ := find?_of_blank hblank hs
  obtain ⟨l, hl, hlm⟩ := becomes_cons.1 hm
  obtain rfl := becomes_nil.1 hlm
  rw [(leads_of_apply hl).elements, entryAfter] at ht
  split at ht
  · cases ht
  · rename_i hne
    exact ⟨hne, t, ht, hts⟩

theorem Commits.find?_removed (h : d.Commits [.removeElement id] d') :
    d'.elements.find? id = none := by
  cases hs : d'.elements.find? id with
  | none => rfl
  | some s => exact absurd rfl (h.find?_of_removeElement hs).1

theorem not_adds_removeElement : ¬ Adds [.removeElement id] j := by
  simp [Adds]

theorem Commits.enabledIn_of_removeElement (h : d.Commits [.removeElement id] d') (hd : d.Keyed)
    (j : ElementId) : d'.enabledIn j = d'.arbitrated j ∨
      d'.enabledIn j = d.enabledIn j ∧ d'.arbitrated j = d.arbitrated j := by
  -- who is passed over was not added, so that arbitrating everything says the same as before
  by_cases hp : PassedOver d d' j
  · obtain ⟨⟨_, hrevives⟩ | ⟨_, hkept⟩, harb⟩ := h.enabledIn_of_passedOver hd hp
    · exact absurd hrevives.adds not_adds_removeElement
    · exact .inr ⟨hkept, harb⟩
  · exact .inl (h.enabledIn_eq hd hp)

theorem Commits.enabledIn_of_freed (h : d.Commits [.removeElement id] d') (hd : d.Keyed) {k : SlotKey}
    (hid : k ∈ d.slotsOfId id) (hj : k ∈ d'.slotsOfId j) : d'.enabledIn j = d'.arbitrated j := by
  obtain ⟨s, hs, hk⟩ := mem_slotsOfId.1 hj
  have htouched : isTouched d d' id = true := by
    unfold isTouched
    rw [h.find?_removed]
    cases d.elements.find? id <;> rfl
  exact h.enabledIn_eq hd fun hp => hp.2 s hs (isReached_of_shared htouched (.inl hid) hk)

theorem Commits.activate_iff_of_removeElement (h : d.Commits [.removeElement id] d') (hd : d.Keyed)
    (refresh : OrdSet ContextPath) {c : Option LogicalContext} :
    .activate e p c ∈ effects d d' refresh ↔
      e ∈ d'.enabledAt p ∧ e ∉ d.enabledAt p ∧ c = d'.contextFor e p := by
  rw [activate_mem_effects]
  constructor
  · rintro ⟨j, s, hs, hp, rfl, rfl⟩
    obtain ⟨hp, hnot⟩ := mem_enabledOnlyIn.1 hp
    obtain ⟨_, t, ht, hts⟩ := h.find?_of_removeElement hs
    have hsame : isReplaced d d' j = false := by simp [isReplaced, ht, hs, hts]
    rw [hsame] at hnot
    refine ⟨((h.keyed hd).element_mem_enabledAt hs).2 hp, ?_, rfl⟩
    rw [← hts, hd.element_mem_enabledAt ht]
    simpa using hnot
  · rintro ⟨hmem, hno, rfl⟩
    obtain ⟨j, s, hs, hp, rfl⟩ := mem_enabledAt.1 hmem
    obtain ⟨_, t, ht, hts⟩ := h.find?_of_removeElement hs
    rw [← hts, hd.element_mem_enabledAt ht] at hno
    exact ⟨j, s, hs, mem_enabledOnlyIn.2 ⟨mem_enabledIn.2 ⟨s, hs, hp⟩, .inr hno⟩, rfl, rfl⟩

end Deployment

namespace Server

variable {s : Server} {i : InProcess} {fs : List Effect}

theorem toBool_applyEffects (hi : s.engine = .inProcess i) (hrun : i.running)
    (hsorted : fs.Pairwise fun f g => f.stage ≤ g.stage) (hfinds : i.Finds [] fs)
    (hagree : ∀ f ∈ fs, ∀ g ∈ fs, InProcess.Agree f g) :
    (s.applyEffects fs).1.toBool ↔ ∀ f ∈ fs, i.Admits s.pool f := by
  unfold applyEffects
  split
  · rename_i hempty
    rw [List.isEmpty_iff.1 hempty]
    simp [Except.toBool]
  · rw [hi, ← InProcess.toBool_apply hrun hsorted hfinds hagree]
    simp only [Engine.apply]
    cases (i.apply s.pool fs).1 <;> rfl

/-- What the engine makes of a removal. -/
theorem Mirrored.toBool_submit_removeElement {d : Deployment} {id : ElementId} {label : String}
    (h : s.Mirrored) (hd : s.deployment.Commits [.removeElement id] d) (hi : s.engine = .inProcess i)
    (hrun : i.running) (hcheck : i.checkClasses) :
    (s.submit ⟨label, [.removeElement id]⟩).1.toBool ↔
      ∀ p, ∀ e ∈ d.enabledAt p, e ∉ s.deployment.enabledAt p → s.pool.Supplies e := by
  have hcoherent := hd.coherent h.coherent
  have hactivate {p : ContextPath} {e : Element} {c : Option LogicalContext} :=
    hd.activate_iff_of_removeElement h.coherent.keyed (p := p) (e := e) (c := c)
      (Change.refreshed [.removeElement id])
  obtain ⟨j, hj, hmounts⟩ := h.mirror
  cases hi.symm.trans hj
  obtain ⟨m, hm, rfl⟩ := hd
  rw [toBool_submit hm, toBool_applyEffects hi hrun (Deployment.pairwise_effects ..)
    (hcoherent.finds_effects hmounts _) (hcoherent.keyed.agree_effects _)]
  constructor
  · intro hadmits p e he hno
    obtain ⟨hknown, hprovides⟩ := hadmits _ (hactivate.2 ⟨he, hno, rfl⟩)
    obtain ⟨k, x, hx, hp, rfl⟩ := Deployment.mem_enabledAt.1 he
    obtain ⟨c, hc, _⟩ := Deployment.contextFor_of_mem hcoherent.wellFormed
      (hcoherent.sound.mem_physicalOf hcoherent.keyed hx hp)
    exact ⟨hknown hcheck, fun source hsource => hprovides source hsource (by rw [hc]; rfl)⟩
  · intro hsupplies f hf
    cases f with
    | activate e p c =>
      obtain ⟨he, hno, _⟩ := hactivate.1 hf
      obtain ⟨hknown, hprovides⟩ := hsupplies p e he hno
      exact ⟨fun _ => hknown, fun source hsource _ => hprovides source hsource⟩
    | _ => trivial

/-- A removal from a running server that checks classes is never invalid. It leads to the deployment in
which those who compete for a freed slot are enabled as arbitrating everything says, and so is everybody
else if they were. It is carried out if all elements that it promotes can be activated; if one of them
cannot, the engine refuses the removal, and nothing changes but for listeners made. -/
theorem submit_removeElement (config : ServerConfig) (pool : Pool) (commands : List Command)
    (label : String) (id : ElementId) {s : Server}
    (hs : s = (new config (.inProcess {}) pool).follow commands)
    (hid : s.deployment.elements.contains id) (hi : s.engine = .inProcess i) (hrun : i.running)
    (hcheck : i.checkClasses) :
    ∃ d, s.deployment.Commits [.removeElement id] d ∧
      ((∀ p, ∀ e ∈ d.enabledAt p, e ∉ s.deployment.enabledAt p → s.pool.Supplies e) →
        ∃ r t, s.submit ⟨label, [.removeElement id]⟩ = (.ok r, t) ∧ t.deployment = d) ∧
      (∀ p, ∀ e ∈ d.enabledAt p, e ∉ s.deployment.enabledAt p → ¬ s.pool.Supplies e →
        ∃ cause t, s.submit ⟨label, [.removeElement id]⟩ = (.error (.engine label cause), t) ∧
          s.Consumes t) ∧
      (∀ j, d.enabledIn j = d.arbitrated j ∨
        d.enabledIn j = s.deployment.enabledIn j ∧ d.arbitrated j = s.deployment.arbitrated j) ∧
      ∀ j, ∀ k ∈ s.deployment.slotsOfId id, k ∈ d.slotsOfId j → d.enabledIn j = d.arbitrated j := by
  have hm : s.Mirrored := hs ▸ (mirrored_new config pool).follow commands
  -- the removal is valid, so that only the engine can fail it
  obtain ⟨m, hbecomes⟩ := Deployment.exists_becomes_removeElement hid
  have hd : s.deployment.Commits [.removeElement id] _ := ⟨m, hbecomes, rfl⟩
  have hiff : (s.submit ⟨label, [.removeElement id]⟩).1.toBool ↔ _ :=
    hm.toBool_submit_removeElement hd hi hrun hcheck
  refine ⟨_, hd, fun hsupplies => ?_, fun p e he hno hnot => ?_,
    hd.enabledIn_of_removeElement hm.coherent.keyed,
    fun j k hk hkj => hd.enabledIn_of_freed hm.coherent.keyed hk hkj⟩
  · obtain ⟨r, hr⟩ := exists_of_toBool (hiff.2 hsupplies)
    exact ⟨r, _, hr, (submit_ok hr).unique hd⟩
  · rcases hr : s.submit ⟨label, [.removeElement id]⟩ with ⟨e | r, t⟩
    · obtain ⟨cause, rfl⟩ := eq_engine_of_submit_error hbecomes hr
      exact ⟨cause, t, rfl, consumes_submit hr⟩
    · exact absurd (hiff.1 (by rw [hr]; rfl) p e he hno) hnot

def checks (s : Server) : Bool :=
  match s.engine with
  | .inProcess i => i.running && i.checkClasses
  | _ => false

theorem exists_of_checks (h : s.checks) :
    ∃ i, s.engine = .inProcess i ∧ i.running ∧ i.checkClasses := by
  unfold checks at h
  split at h
  · rename_i i hi
    exact ⟨i, hi, by simpa using h⟩
  · cases h

/-- Two servlets for every path: the younger one takes over when the older one is removed. -/
theorem submit_removeElement_promoted :
    let commands : List Command :=
      [.start, .submit ⟨"add", [.addElement (.catchAll 1), .addElement (.catchAll 2)]⟩]
    let s := (new {} (.inProcess {}) {}).follow commands
    let t := (s.submit ⟨"remove", [.removeElement 1]⟩).2
    (s.submit ⟨"remove", [.removeElement 1]⟩).1.toBool ∧ s.deployment.enabledIn 2 = ∅ ∧
      t.deployment.isEnabled 2 ∧ t.deployment.enabledIn 2 = t.deployment.arbitrated 2 := by
  intro commands s t
  have hid : s.deployment.elements.contains 1 := by decide +kernel
  have hchecks : s.checks := by decide +kernel
  have hok : (s.submit ⟨"remove", [.removeElement 1]⟩).1.toBool := by decide +kernel
  have hbefore : s.deployment.enabledIn 2 = ∅ := by decide +kernel
  have hafter : t.deployment.isEnabled 2 := by decide +kernel
  have hshared : ∃ k ∈ s.deployment.slotsOfId 1, k ∈ t.deployment.slotsOfId 2 := by decide +kernel
  obtain ⟨i, hi, hrun, hcheck⟩ := exists_of_checks hchecks
  obtain ⟨d, hd, _, _, _, hfreed⟩ :=
    submit_removeElement {} {} commands "remove" 1 (s := s) rfl hid hi hrun hcheck
  obtain ⟨r, hr⟩ := exists_of_toBool hok
  obtain rfl := (submit_ok hr).unique hd
  obtain ⟨k, hk, hk₂⟩ := hshared
  exact ⟨hok, hbefore, hafter, hfreed 2 k hk hk₂⟩

/-- The class of the younger one is not registered. As long as it is shadowed nobody asks for it, and then
the older one cannot be removed. -/
theorem submit_removeElement_refused :
    let ghost : Element := { Element.catchAll 2 with details := .servlet (.classRef "ghost") }
    let s := (new {} (.inProcess {}) {}).follow
      [.start, .submit ⟨"add", [.addElement (.catchAll 1), .addElement ghost]⟩]
    s.checks ∧ s.deployment.elements.contains 1 ∧ s.deployment.elements.contains 2 ∧
      (s.submit ⟨"remove", [.removeElement 1]⟩).1 = .error (.engine "remove"
        (InProcess.refuse "activate servlet \"echo\" #2 in /" "unknown class ghost")) := by
  decide +kernel

end Server

end ServletContainer
