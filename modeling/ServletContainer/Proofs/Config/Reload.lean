import ServletContainer.Builtin
import ServletContainer.Proofs.Config.Online
import ServletContainer.Proofs.Server.Mirror
import ServletContainer.Proofs.Server.Started

/-! Reloads. Whatever was declared on the way, with or without success, what a manager has online is what
its server holds (`ConfigManager.Reached.online`). So declarations that were checked for the default context
of the server can only fail at the engine (`ConfigManager.apply_checked`). -/
namespace ServletContainer

namespace ConfigManager

open Deployment

variable {m m' : ConfigManager} {s t s₀ : Server} {D : Declared} {base : LogicalContext}
  {default : ContextId} {config : ServerConfig} {engine : Engine} {pool : Pool}

section Applying

theorem apply_error {e : ServerError} (h : m.apply s D = (.error e, m', t)) :
    m' = m ∧ s.Consumes t ∧
      ((∃ cause, (m.diff s D).1 = .error cause ∧ e = .validation cause) ∨
        ∃ changes es u cause, m.diff s D = (.ok (changes, es), u) ∧
          u.submit ⟨"config reload", changes⟩ = (.error cause, t) ∧ e = .batch cause) := by
  have hdiff := m.consumes_diff s D
  unfold apply at h
  split at h
  · rename_i cause u heq
    rw [heq] at hdiff
    cases h
    exact ⟨rfl, hdiff, .inl ⟨cause, by rw [heq], rfl⟩⟩
  · rename_i changes es u heq
    rw [heq] at hdiff
    split at h
    · cases h
    · split at h
      · cases h
      · rename_i cause v hsubmit
        cases h
        exact ⟨rfl, hdiff.trans (Server.consumes_submit hsubmit),
          .inr ⟨changes, es, u, cause, heq, hsubmit, rfl⟩⟩

theorem adopt_nil (h : m.removals D = []) : m.adopt D [] = { m with online := D } := by
  have hkept : m.elements.filter (fun key _ =>
      D.elements.find? key = m.online.elements.find? key) = m.elements := by
    refine OrdMap.ext (List.filter_eq_self.2 fun e he => ?_)
    simp only [decide_eq_true_eq]
    by_contra hne
    have hmem : e.2 ∈ (m.outdated D).values :=
      mem_outdated.2 ⟨e.1, OrdMap.mem_entries_iff.1 he, hne⟩
    rw [removals, List.append_eq_nil_iff, List.map_eq_nil_iff] at h
    rw [h.1] at hmem
    cases hmem
  rw [adopt, hkept, List.foldl_nil]

theorem apply_ok {r : Option Report} (h : m.apply s D = (.ok r, m', t)) :
    ∃ cs es, m.Draft s D cs es ∧ m' = m.adopt D es ∧
      t.counters.element = s.counters.element + es.length ∧
      (m.difference D cs es = [] ∧ t.deployment = s.deployment ∨
        s.deployment.Commits (m.difference D cs es) t.deployment) := by
  have hdiff := m.consumes_diff s D
  unfold apply at h
  split at h
  · cases h
  · rename_i changes es u heq
    rw [heq] at hdiff
    obtain ⟨cs, hdraft, rfl, hcounters⟩ := diff_ok heq
    split at h
    · rename_i hempty
      cases h
      have hnil := List.isEmpty_iff.1 hempty
      obtain ⟨hremovals, hes⟩ := List.append_eq_nil_iff.1 hnil
      obtain rfl := List.map_eq_nil_iff.1 hes
      rw [List.append_eq_nil_iff] at hremovals
      exact ⟨cs, [], hdraft, (adopt_nil hremovals.1).symm, hcounters, .inl ⟨hnil, hdiff.deployment⟩⟩
    · split at h
      · rename_i hsubmit
        cases h
        have hkeep := Server.counters_submit u ⟨"config reload", m.difference D cs es⟩
        rw [hsubmit] at hkeep
        exact ⟨cs, es, hdraft, rfl, by rw [hkeep, hcounters],
          .inr (hdiff.deployment ▸ Server.submit_ok hsubmit)⟩
      · cases h

theorem Online.apply (h : m.Online base s) (hD : D.Checked default) :
    (m.apply s D).2.1.Online base (m.apply s D).2.2 := by
  rcases happly : m.apply s D with ⟨e | r, m', t⟩
  · obtain ⟨rfl, hconsumes, _⟩ := apply_error happly
    exact h.congr hconsumes.deployment hconsumes.counters.1
  · obtain ⟨cs, es, hdraft, rfl, hcounters, ⟨hnil, hsame⟩ | hcommits⟩ := apply_ok happly
    · have hbecomes : s.deployment.Becomes (m.difference D cs es) t.deployment := by
        rw [hnil, hsame]
        exact becomes_nil.2 rfl
      exact h.adopt hD hdraft ⟨_, hbecomes⟩ hbecomes.traces (by rw [hsame]) hcounters.ge
    · obtain ⟨d, hbecomes, heq⟩ := hcommits
      refine h.adopt hD hdraft ⟨d, hbecomes⟩ (Commits.traces ⟨d, hbecomes, heq⟩) ?_ hcounters.ge
      rw [heq]
      exact hbecomes.settings.2

end Applying

section Runs

/-- How far a manager and a server get when only the manager writes to the server. Meanwhile requests are
served, elements built and classes registered, and the engine may change as it likes. -/
inductive Reached (s₀ : Server) : ConfigManager → Server → Prop
  | start : Reached s₀ {} s₀
  | apply {m : ConfigManager} {s : Server} {c : Config} {n n' : Counters} {D : Declared} :
      Reached s₀ m s → c.declared n = (.ok D, n') →
      Reached s₀ (m.apply s D).2.1 (m.apply s D).2.2
  | meanwhile {m : ConfigManager} {s : Server} (engine : Engine) (pool : Pool) (counters : Counters)
      (nextService : Nat) : Reached s₀ m s → s.counters ≤ counters →
      Reached s₀ m { s with engine, pool, counters, nextService }

theorem online_start (h : (Server.new config engine pool).start = (.ok (), s)) :
    ∃ p, ContextPath.parse config.defaultContextPath = .ok p ∧
      ({} : ConfigManager).Online (Server.baseContext config p) s := by
  obtain ⟨p, hp, hcontexts⟩ := Server.context_start h
  obtain ⟨_, _, d, hbecomes, heq⟩ := Server.start_new h
  have hplaced := Server.placed_start h
  refine ⟨p, hp, ?_⟩
  constructor
  case defaultContext => rw [heq]; exact hbecomes.settings.2
  case bound => exact (hcontexts _).trans (if_pos rfl)
  case reserved => rfl
  case contexts =>
    intro name hname
    have hother : name ≠ config.defaultContext := hname
    rw [hcontexts, if_neg hother]
    exact .none
  case elements => exact fun key => .none
  case injective => exact nofun
  case noted => exact fun id e he => by cases (hplaced id).symm.trans he
  case fresh => exact fun id e he => by cases (hplaced id).symm.trans he

/-- What a manager has online is what its server holds. -/
theorem Reached.online (h : Reached s₀ m s)
    (hs₀ : (Server.new config engine pool).start = (.ok (), s₀)) :
    ∃ p, ContextPath.parse config.defaultContextPath = .ok p ∧
      m.Online (Server.baseContext config p) s := by
  induction h with
  | start => exact online_start hs₀
  | apply _ hD ih =>
    obtain ⟨p, hp, honline⟩ := ih
    exact ⟨p, hp, honline.apply (Config.checked hD)⟩
  | meanwhile _ _ _ _ _ hcounters ih =>
    obtain ⟨p, hp, honline⟩ := ih
    exact ⟨p, hp, honline.congr rfl hcounters.1⟩

/-- Declarations that were checked for the default context can be made, and the batch for them is valid
change by change. -/
theorem Online.exists_batch (h : m.Online base s) (hD : D.Checked base.id) :
    ∃ changes es u d, m.diff s D = (.ok (changes, es), u) ∧ u.deployment.Becomes changes d := by
  obtain ⟨changes, es, u, hdiff⟩ := exists_diff hD m s
  have hconsumes := m.consumes_diff s D
  obtain ⟨cs, hdraft, rfl, _⟩ := diff_ok hdiff
  rw [hdiff] at hconsumes
  obtain ⟨d, hd⟩ := h.exists_becomes hD hdraft
  exact ⟨_, es, u, d, hdiff, hconsumes.deployment ▸ hd⟩

/-- So nothing but the engine can refuse them. -/
theorem Online.apply_refused (h : m.Online base s) (hD : D.Checked base.id) {e : ServerError}
    (he : (m.apply s D).1 = .error e) : ∃ cause, e = .batch (.engine "config reload" cause) := by
  obtain ⟨changes, es, u, d, hdiff, hd⟩ := h.exists_batch hD
  rcases happly : m.apply s D with ⟨_ | r, m', t⟩ <;> rw [happly] at he <;> cases he
  obtain ⟨_, _, ⟨cause, hfailed, _⟩ | ⟨_, _, _, cause, hdiff', hsubmit, rfl⟩⟩ := apply_error happly
  · rw [hdiff] at hfailed
    cases hfailed
  · cases hdiff.symm.trans hdiff'
    obtain ⟨cause, rfl⟩ := Server.eq_engine_of_submit_error hd hsubmit
    exact ⟨cause, rfl⟩

/-- Declarations that were accepted by themselves, for the default context of the server, are never
invalid, whatever was declared before. -/
theorem apply_checked {c : Config} {n n' : Counters}
    (hs₀ : (Server.new config engine pool).start = (.ok (), s₀)) (h : Reached s₀ m s)
    (hD : c.declared n = (.ok D, n')) (hdefault : c.server.defaultContext = config.defaultContext) :
    (∃ changes es u d, m.diff s D = (.ok (changes, es), u) ∧ u.deployment.Becomes changes d) ∧
      ∀ e, (m.apply s D).1 = .error e → ∃ cause, e = .batch (.engine "config reload" cause) := by
  obtain ⟨p, _, honline⟩ := h.online hs₀
  have hchecked := Config.checked hD
  rw [hdefault] at hchecked
  exact ⟨honline.exists_batch hchecked, fun e => honline.apply_refused hchecked⟩

/-- A servlet stays while its context moves, and another one goes to a context that is new; a reload
before that was refused, for a class that is not registered. -/
theorem apply_checked_moved :
    let echo : ElementDecl := ⟨"echo", ["main"], 0, .servlet "webboard.EchoServlet" ["/echo/*"] [] ∅⟩
    let other (contexts : List ContextId) : ElementDecl :=
      ⟨"other", contexts, 0, .servlet "webboard.EchoServlet" ["/other"] [] ∅⟩
    let main (path : String) : ContextDecl := ⟨"main", path, 0, ∅, none, {}, none⟩
    let extra : ContextDecl := ⟨"extra", "/x", 1, ∅, none, {}, none⟩
    let c : Config := { contexts := [main "/n", extra], elements := [echo, other ["extra"]] }
    let D : Declared := ⟨.ofList [("main", main "/n"), ("extra", extra)],
      .ofList [("servlet/echo", echo), ("servlet/other", other ["extra"])]⟩
    let s₀ := (Server.new {} (.inProcess {}) (Pool.withBuiltins {})).start.2
    ∃ m s n n', Reached s₀ m s ∧ m.elements.keys = ["servlet/echo", "servlet/other"] ∧
      c.declared n = (.ok D, n') ∧ (m.apply s D).1.toBool ∧
      (∃ changes es u d, m.diff s D = (.ok (changes, es), u) ∧ u.deployment.Becomes changes d) ∧
      ∀ e, (m.apply s D).1 = .error e → ∃ cause, e = .batch (.engine "config reload" cause) := by
  intro echo other main extra c D s₀
  let ghost : ElementDecl := ⟨"ghost", [], 0, .servlet "demo.Ghost" ["/ghost"] [] ∅⟩
  let D₁ : Declared := ⟨.ofList [("main", main "/m")],
    .ofList [("servlet/echo", echo), ("servlet/other", other [])]⟩
  let D₂ : Declared := { D₁ with elements := D₁.elements.insert "servlet/ghost" ghost }
  have hs₀ : (Server.new {} (.inProcess {}) (Pool.withBuiltins {})).start = (.ok (), s₀) := by
    decide +kernel
  have h₁ : Config.declared { contexts := [main "/m"], elements := [echo, other []] } {} =
      (.ok D₁, ⟨3, 2⟩) := by decide +kernel
  have h₂ : Config.declared { contexts := [main "/m"], elements := [echo, other [], ghost] } {} =
      (.ok D₂, ⟨4, 2⟩) := by decide +kernel
  have hD : c.declared {} = (.ok D, ⟨3, 3⟩) := by decide +kernel
  have hreached : Reached s₀ _ _ := .apply (.apply .start h₁) h₂
  obtain ⟨hbatch, hrefused⟩ := apply_checked hs₀ hreached hD rfl
  exact ⟨_, _, {}, ⟨3, 3⟩, hreached, by decide +kernel, hD, by decide +kernel, hbatch, hrefused⟩

end Runs

end ConfigManager

end ServletContainer
