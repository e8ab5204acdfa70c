import ServletContainer.Proofs.Server.Rollback
import ServletContainer.Proofs.Server.Stop

/-! Servers on engines that accept everything. Such an engine stays one whatever it is asked to do, so that
on such a server exactly the valid batches are committed (`Server.Accepts.toBool_submit_iff`), and stopping
it always withdraws everything. -/
namespace ServletContainer

theorem Recording.refused_call {r r' : Recording} {c : EngineCall} {text effect : String}
    (h : r.call c text effect = .ok r') : r'.refused = r.refused := by
  unfold Recording.call at h
  split at h <;> cases h
  rfl

namespace Engine

variable {engine next : Engine} {settings : EngineSettings} {pool pool' : Pool} {fs : List Effect}

def AcceptsAll (engine : Engine) : Prop := ∀ pool fs, (engine.apply pool fs).1.toBool

theorem acceptsAll_recording {r : Recording} : AcceptsAll (.recording r) ↔ r.refused ≠ some .apply := by
  constructor
  · intro h hrefused
    have hcall := h {} []
    simp [apply, Recording.call, hrefused, Except.map, Except.toBool] at hcall
  · intro h pool fs
    simp [apply, Recording.call, h, Except.map, Except.toBool]

theorem not_acceptsAll_inProcess (i : InProcess) : ¬ AcceptsAll (.inProcess i) := by
  intro h
  let source : Source Listener := .supplier .singleton (.tagged "up" true) 1 "asleep"
  let e : Element := { Element.catchAll 1 with details := .listener source }
  let c : LogicalContext := ⟨"main", .root, 0, 1, none, .standard, ∅, {}⟩
  let fs : List Effect := [.createPhysical .root, .activate e .root (some c)]
  have happly : (i.apply {} fs).1.toBool := by
    have hfs := h {} fs
    rw [Engine.apply] at hfs
    cases hresult : (i.apply {} fs).1 <;> simp_all [Except.map, Except.toBool]
  have hrun : i.running := by
    by_contra hrun
    rw [Bool.not_eq_true] at hrun
    simp [InProcess.apply, hrun, Except.toBool] at happly
  have hfinds : i.Finds [] fs := fun _ _ _ hf => by
    simp only [fs, List.mem_cons, reduceCtorEq, Effect.activate.injEq, List.not_mem_nil, or_false,
      false_or] at hf
    simp [fs, hf]
  have hagree : ∀ f ∈ fs, ∀ g ∈ fs, InProcess.Agree f g := by
    rintro f hf g hg _ _ _ _ _ _ rfl rfl _
    simp only [fs, List.mem_cons, reduceCtorEq, Effect.activate.injEq, List.not_mem_nil, or_false,
      false_or] at hf hg
    rw [hf.1, hg.1]
  have hadmits := (InProcess.toBool_apply hrun (by decide) hfinds hagree).1 happly _
    (List.mem_cons_of_mem _ List.mem_cons_self)
  exact absurd (hadmits.2 source rfl rfl) (by decide)

theorem AcceptsAll.eq (h : engine.AcceptsAll) :
    engine = .idle ∨ ∃ r, engine = .recording r ∧ r.refused ≠ some .apply := by
  cases engine with
  | idle => exact .inl rfl
  | recording r => exact .inr ⟨r, rfl, acceptsAll_recording.1 h⟩
  | inProcess i => exact (not_acceptsAll_inProcess i h).elim

theorem acceptsAll_idle : AcceptsAll .idle := fun _ _ => rfl

theorem AcceptsAll.of_call {r : Recording} {c : EngineCall} {text effect : String}
    (h : r.refused ≠ some .apply) (hcall : (r.call c text effect).map .recording = .ok next) :
    next.AcceptsAll := by
  obtain ⟨r', hr', rfl⟩ := exists_of_map_ok hcall
  exact acceptsAll_recording.2 (Recording.refused_call hr' ▸ h)

theorem AcceptsAll.configure (h : engine.AcceptsAll) (hnext : engine.configure settings = .ok next) :
    next.AcceptsAll := by
  obtain rfl | ⟨r, rfl, hr⟩ := h.eq
  · cases hnext
    exact acceptsAll_idle
  · exact .of_call hr hnext

theorem AcceptsAll.start (h : engine.AcceptsAll) (hnext : engine.start = .ok next) :
    next.AcceptsAll := by
  obtain rfl | ⟨r, rfl, hr⟩ := h.eq
  · cases hnext
    exact acceptsAll_idle
  · exact .of_call hr hnext

theorem AcceptsAll.stop (h : engine.AcceptsAll) (hnext : engine.stop = .ok next) :
    next.AcceptsAll := by
  obtain rfl | ⟨r, rfl, hr⟩ := h.eq
  · cases hnext
    exact acceptsAll_idle
  · exact .of_call hr hnext

theorem AcceptsAll.apply (h : engine.AcceptsAll) (hnext : engine.apply pool fs = (.ok next, pool')) :
    next.AcceptsAll := by
  obtain rfl | ⟨r, rfl, hr⟩ := h.eq
  · cases hnext
    exact acceptsAll_idle
  · exact .of_call hr (Prod.mk.inj hnext).1

theorem AcceptsAll.committed (h : engine.AcceptsAll) : engine.committed.2.AcceptsAll := by
  obtain rfl | ⟨r, rfl, hr⟩ := h.eq
  · exact acceptsAll_idle
  · exact acceptsAll_recording.2 hr

end Engine

namespace Server

variable {s t : Server} {b : Batch}

theorem placed_start_eq (s : Server) (id : ElementId) :
    s.start.2.deployment.placed id = s.deployment.placed id := by
  rcases s.deployment_start with heq | ⟨c, hcommits⟩
  · rw [heq]
  · exact hcommits.traces.placed id

theorem element_start (s : Server) : s.start.2.counters.element = s.counters.element :=
  start_preserves (P := fun t => t.counters.element = s.counters.element) (fun _ _ h _ => h)
    (fun _ _ h _ => h) (fun _ _ h hcount => hcount.trans h)
    (fun t b h _ => by rw [t.counters_submit]; exact h) (fun _ h => h) rfl

theorem counters_stop (s : Server) : s.stop.2.counters = s.counters :=
  stop_preserves (P := fun t => t.counters = s.counters) (s.counters_submit _) (fun _ _ h _ => h) rfl

/-- The engine accepts everything, and the contexts are such that everything can be withdrawn. -/
structure Accepts (s : Server) : Prop where
  engine : s.engine.AcceptsAll
  wellFormed : s.deployment.contexts.WellFormed

theorem accepts_new {config : ServerConfig} {engine : Engine} (h : engine.AcceptsAll) (pool : Pool) :
    (new config engine pool).Accepts := ⟨h, .empty⟩

theorem Accepts.of_eq (h : s.Accepts) (hengine : t.engine = s.engine)
    (hdeployment : t.deployment = s.deployment) : t.Accepts :=
  ⟨hengine ▸ h.engine, hdeployment ▸ h.wellFormed⟩

theorem Accepts.consumes (h : s.Accepts) (ht : s.Consumes t) : t.Accepts :=
  h.of_eq (by rw [ht.eq]) ht.deployment

/-- What is submitted is committed if it is valid. -/
theorem Accepts.toBool_submit_iff (h : s.Accepts) :
    (s.submit b).1.toBool ↔ ∃ m, s.deployment.Becomes b.changes m := by
  constructor
  · intro hok
    obtain ⟨r, hr⟩ := exists_of_toBool hok
    exact (submit_ok hr).imp fun _ hm => hm.1
  · rintro ⟨m, hm⟩
    rw [toBool_submit hm, applyEffects]
    split
    · rfl
    · exact h.engine _ _

theorem Accepts.submit (h : s.Accepts) (b : Batch) : (s.submit b).2.Accepts := by
  refine ⟨?_, ?_⟩
  · unfold Server.submit
    split
    · exact h.engine
    · simp only
      split <;> rename_i heq
      · exact h.engine
      · unfold applyEffects at heq
        split at heq
        · cases heq
          exact h.engine.committed
        · exact (h.engine.apply heq).committed
  · rcases s.deployment_submit b with heq | hcommits
    · exact heq ▸ h.wellFormed
    · exact hcommits.wellFormed h.wellFormed

theorem Accepts.start (h : s.Accepts) : s.start.2.Accepts :=
  start_preserves (P := Accepts) (fun _ _ h hnext => ⟨h.engine.configure hnext, h.wellFormed⟩)
    (fun _ _ h hnext => ⟨h.engine.start hnext, h.wellFormed⟩) (fun _ _ h _ => h.of_eq rfl rfl)
    (fun _ b h _ => h.submit b) (fun _ h => h.of_eq rfl rfl) h

theorem Accepts.stop (h : s.Accepts) : s.stop.2.Accepts :=
  stop_preserves (h.submit _) (fun _ _ h hnext => ⟨h.engine.stop hnext, h.wellFormed⟩) h

theorem Accepts.placed_stop (h : s.Accepts) (hstarted : s.started) (id : ElementId) :
    s.stop.2.deployment.placed id = none := by
  have hok : (s.submit (shutdown s.deployment)).1.toBool :=
    h.toBool_submit_iff.2 (Deployment.exists_shutdown h.wellFormed)
  obtain ⟨r, hr⟩ := exists_of_toBool hok
  rw [deployment_stop_of_started hstarted]
  exact (submit_ok hr).placed_shutdown id

end Server

end ServletContainer
