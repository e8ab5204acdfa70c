import ServletContainer.Engine.Basic
import ServletContainer.Proofs.Element.Source

/-! The check of a list of effects before an engine does them. It makes listeners at most
(`Engine.consults_apply`). The in-process engine accepts a list whose mounts are there in time exactly if
it accepts each activation (`InProcess.toBool_checkAll`). -/
namespace ServletContainer

theorem Pool.Consults.knowsClass {p q : Pool} (h : p.Consults q) (e : Element) :
    InProcess.knowsClass q e = InProcess.knowsClass p e := by
  unfold InProcess.knowsClass
  rw [h.eq]
  simp only [h.classes.hasClass]

namespace InProcess

theorem consults_findListener (ch : Check) (e : Element) (path : ContextPath)
    (context : Option LogicalContext) : ch.pool.Consults (findListener ch e path context).2.pool := by
  unfold findListener
  split
  · rename_i source _ _
    have h := ch.pool.consults_listener e.id source
    split <;> rename_i heq <;> rw [heq] at h <;> exact h
  · rfl

theorem consults_checkEffect (s : InProcess) (ch : Check) (f : Effect) :
    ch.pool.Consults (s.checkEffect ch f).2.pool := by
  unfold checkEffect
  split
  · rfl
  · split
    · rfl
    · split
      · rfl
      · rename_i e path context _ _
        have h := consults_findListener ch e path context
        split <;> rename_i heq <;> rw [heq] at h <;> exact h
  · rfl

theorem consults_checkAll (s : InProcess) (ch : Check) (fs : List Effect) :
    ch.pool.Consults (s.checkAll ch fs).2.pool := by
  induction fs generalizing ch with
  | nil => rfl
  | cons f fs ih =>
    have h := s.consults_checkEffect ch f
    unfold checkAll
    split <;> rename_i heq <;> rw [heq] at h
    · exact h.trans (ih _)
    · exact h

section Accepting

variable {s : InProcess} {ch ch' : Check} {f g : Effect} {fs : List Effect} {e : EngineError}

/-- Whether an activation is accepted in a mount that exists: the class must be known, and the source of
a listener under a context must provide it. -/
def Admits (s : InProcess) (pool : Pool) : Effect → Prop
  | .activate e _ context => (s.checkClasses → knowsClass pool e) ∧
      ∀ source, e.details = .listener source → context.isSome → pool.listeners.provides e.id source
  | _ => True

/-- What is activated is mounted, or to be mounted by the same list. -/
def Finds (s : InProcess) (created : List ContextPath) (fs : List Effect) : Prop :=
  ∀ e p context, .activate e p context ∈ fs →
    s.mounts.contains p ∨ p ∈ created ∨ .createPhysical p ∈ fs

/-- Activations of one number are activations of one thing. -/
def Agree (f g : Effect) : Prop :=
  ∀ e p c e' p' c', f = .activate e p c → g = .activate e' p' c' → e'.id = e.id →
    e'.details = e.details

theorem toBool_findListener (ch : Check) (a : Element) (p : ContextPath)
    (context : Option LogicalContext) : (findListener ch a p context).1.toBool ↔
      ∀ source, a.details = .listener source → context.isSome →
        ch.pool.listeners.provides a.id source := by
  unfold findListener
  split
  · rename_i source c hdetails
    have hprovides : (ch.pool.listener a.id source).1.toBool =
      ch.pool.listeners.provides a.id source := Roster.toBool_resolve ..
    simp only [hdetails, Details.listener.injEq, forall_eq', Option.isSome_some, true_imp_iff,
      ← hprovides]
    split <;> rename_i heq <;> rw [heq] <;> rfl
  · rename_i hno
    refine iff_of_true rfl fun source hdetails hsome => ?_
    obtain ⟨c, hc⟩ := Option.isSome_iff_exists.1 hsome
    exact (hno source c hdetails hc).elim

theorem findListener_pool (ch : Check) (a : Element) (p : ContextPath)
    (context : Option LogicalContext) : (findListener ch a p context).2.pool = ch.pool ∨
      ∃ source, a.details = .listener source ∧ context.isSome ∧
        (findListener ch a p context).2.pool = (ch.pool.listener a.id source).2 := by
  unfold findListener
  split
  · rename_i source _ hdetails
    refine .inr ⟨source, hdetails, rfl, ?_⟩
    split <;> rename_i heq <;> rw [heq]
  · exact .inl rfl

theorem created_findListener (ch : Check) (a : Element) (p : ContextPath)
    (context : Option LogicalContext) : (findListener ch a p context).2.created = ch.created := by
  unfold findListener
  split
  · split <;> rfl
  · rfl

theorem checkEffect_activate {a : Element} {p : ContextPath} {context : Option LogicalContext}
    (hmounted : s.mounts.contains p ∨ p ∈ ch.created) :
    s.checkEffect ch (.activate a p context) =
      if s.checkClasses && !knowsClass ch.pool a then
        (.error (refuse (Effect.activate a p context).label
          ("unknown class " ++ a.className.getD "")), ch)
      else
        match findListener ch a p context with
        | (.ok _, ch) => (.ok (), ch)
        | (.error err, ch) => (.error (refuse (Effect.activate a p context).label err.message), ch) := by
  rw [checkEffect]
  refine (if_neg ?_).trans rfl
  simpa [List.contains_iff_mem, or_iff_not_imp_left] using hmounted

theorem toBool_checkEffect (hfinds : ∀ a p c, f = .activate a p c →
    s.mounts.contains p ∨ p ∈ ch.created) :
    (s.checkEffect ch f).1.toBool ↔ s.Admits ch.pool f := by
  cases f with
  | activate a p context =>
    have hlistener := toBool_findListener ch a p context
    rw [checkEffect_activate (hfinds a p context rfl), Admits, ← hlistener]
    split
    · rename_i hunknown
      simp_all [Except.toBool]
    · rename_i hknown
      split <;> rename_i heq <;> simp_all [Except.toBool]
  | _ => exact iff_of_true rfl trivial

theorem mem_created_checkEffect {p : ContextPath} (h : p ∈ ch.created ∨ f = .createPhysical p)
    (hfinds : ∀ a p c, f = .activate a p c → s.mounts.contains p ∨ p ∈ ch.created) :
    p ∈ (s.checkEffect ch f).2.created := by
  cases f with
  | activate a q context =>
    have hcreated := created_findListener ch a q context
    rw [checkEffect_activate (hfinds a q context rfl)]
    split
    · simpa using h
    · split <;> rename_i heq <;> rw [heq] at hcreated <;> simp_all
  | createPhysical q => simpa [checkEffect, eq_comm, or_comm] using h
  | _ => simpa [checkEffect] using h

/-- A check that succeeds has looked up a listener that its source provides, if it has changed the pool
at all. -/
theorem pool_checkEffect (hfinds : ∀ a p c, f = .activate a p c →
    s.mounts.contains p ∨ p ∈ ch.created) (h : (s.checkEffect ch f).1.toBool) :
    (s.checkEffect ch f).2.pool = ch.pool ∨
      ∃ a p c source, f = .activate a p c ∧ a.details = .listener source ∧
        ch.pool.listeners.provides a.id source ∧
        (s.checkEffect ch f).2.pool = (ch.pool.listener a.id source).2 := by
  cases f with
  | activate a p context =>
    have hadmits := (toBool_checkEffect hfinds).1 h
    have hfound : (s.checkEffect ch (.activate a p context)).2.pool =
        (findListener ch a p context).2.pool := by
      rw [checkEffect_activate (hfinds a p context rfl), if_neg (by simpa using hadmits.1)]
      split <;> rename_i heq <;> rw [heq]
    rw [hfound]
    exact (findListener_pool ch a p context).imp_right fun ⟨source, hsource, hsome, hpool⟩ =>
      ⟨a, p, context, source, rfl, hsource, hadmits.2 source hsource hsome, hpool⟩
  | _ => exact .inl rfl

theorem admits_checkEffect (hfinds : ∀ a p c, f = .activate a p c →
    s.mounts.contains p ∨ p ∈ ch.created) (h : (s.checkEffect ch f).1.toBool) (hagree : Agree f g) :
    s.Admits (s.checkEffect ch f).2.pool g ↔ s.Admits ch.pool g := by
  rcases pool_checkEffect hfinds h with hpool | ⟨a, p, c, source, rfl, hsource, hprovides, hpool⟩
  · rw [hpool]
  · rw [hpool]
    cases g with
    | activate b q c' =>
      have hother (source' : Source Listener) (hb : b.details = .listener source') :
          (ch.pool.listener a.id source).2.listeners.provides b.id source' =
            ch.pool.listeners.provides b.id source' :=
        Roster.provides_resolve hprovides fun hid => by
          have := hagree a p c b q c' rfl rfl hid
          rw [hb, hsource] at this
          exact Details.listener.inj this
      rw [Admits, Admits, (ch.pool.consults_listener a.id source).knowsClass b]
      refine and_congr_right fun _ => forall_congr' fun source' => forall_congr' fun hb => ?_
      rw [hother source' hb]
    | _ => exact Iff.rfl

theorem Finds.cons (h : s.Finds ch.created (f :: fs)) (hlater : ∀ g ∈ fs, f.stage ≤ g.stage) :
    (∀ a p c, f = .activate a p c → s.mounts.contains p ∨ p ∈ ch.created) ∧
      s.Finds (s.checkEffect ch f).2.created fs := by
  have hf (a : Element) (p : ContextPath) (c : Option LogicalContext) (hfa : f = .activate a p c) :
      s.mounts.contains p ∨ p ∈ ch.created := by
    subst hfa
    rcases h a p c List.mem_cons_self with hmounted | hcreated | hmem
    · exact .inl hmounted
    · exact .inr hcreated
    · rcases List.mem_cons.1 hmem with heq | hmem
      · cases heq
      · exact absurd (hlater _ hmem) (by simp [Effect.stage])
  refine ⟨hf, fun a p c ha => ?_⟩
  rcases h a p c (List.mem_cons_of_mem f ha) with hmounted | hcreated | hmem
  · exact .inl hmounted
  · exact .inr (.inl (mem_created_checkEffect (.inl hcreated) hf))
  · rcases List.mem_cons.1 hmem with heq | hmem
    · exact .inr (.inl (mem_created_checkEffect (.inr heq.symm) hf))
    · exact .inr (.inr hmem)

/-- A list is accepted if each of its activations is accepted in the pool as it is at first. -/
theorem toBool_checkAll (hsorted : fs.Pairwise fun f g => f.stage ≤ g.stage)
    (hfinds : s.Finds ch.created fs) (hagree : ∀ f ∈ fs, ∀ g ∈ fs, Agree f g) :
    (s.checkAll ch fs).1.toBool ↔ ∀ f ∈ fs, s.Admits ch.pool f := by
  -- the pool changes from effect to effect, but no later activation depends on it (`admits_checkEffect`)
  induction fs generalizing ch with
  | nil => simp [checkAll, Except.toBool]
  | cons f fs ih =>
    obtain ⟨hlater, hsorted⟩ := List.pairwise_cons.1 hsorted
    obtain ⟨hf, hfinds⟩ := hfinds.cons hlater
    have heffect := toBool_checkEffect hf
    have hrest := ih hsorted hfinds fun g hg k hk =>
      hagree g (List.mem_cons_of_mem f hg) k (List.mem_cons_of_mem f hk)
    rw [checkAll, List.forall_mem_cons, ← heffect]
    split <;> rename_i heq
    · have hok : (s.checkEffect ch f).1.toBool := by rw [heq]; rfl
      have hsame (g : Effect) (hg : g ∈ fs) := admits_checkEffect hf hok
        (hagree f List.mem_cons_self g (List.mem_cons_of_mem f hg))
      rw [heq] at hrest hsame
      rw [heq, hrest]
      exact (forall₂_congr hsame).trans (and_iff_right rfl).symm
    · rw [heq]
      simp [Except.toBool]

theorem toBool_apply {pool : Pool} (hrun : s.running)
    (hsorted : fs.Pairwise fun f g => f.stage ≤ g.stage) (hfinds : s.Finds [] fs)
    (hagree : ∀ f ∈ fs, ∀ g ∈ fs, Agree f g) :
    (s.apply pool fs).1.toBool ↔ ∀ f ∈ fs, s.Admits pool f := by
  have hcheck : (s.checkAll { pool := pool } fs).1.toBool ↔ _ :=
    toBool_checkAll hsorted hfinds hagree
  rw [← hcheck, apply, if_neg (by simp [hrun])]
  split <;> rename_i heq <;> rw [heq] <;> simp [Except.toBool]

theorem reason_checkEffect (hfinds : ∀ a p c, f = .activate a p c →
    s.mounts.contains p ∨ p ∈ ch.created) (h : s.checkEffect ch f = (.error e, ch')) :
    (∃ name, e.reason = "unknown class " ++ name) ∨ ∃ err : DispatchError, e.reason = err.message := by
  cases f with
  | activate a p context =>
    rw [checkEffect_activate (hfinds a p context rfl)] at h
    split at h
    · cases h
      exact .inl ⟨_, rfl⟩
    · split at h
      · cases h
      · cases h
        exact .inr ⟨_, rfl⟩
  | _ => cases h

theorem reason_checkAll (hsorted : fs.Pairwise fun f g => f.stage ≤ g.stage)
    (hfinds : s.Finds ch.created fs) (h : s.checkAll ch fs = (.error e, ch')) :
    (∃ name, e.reason = "unknown class " ++ name) ∨ ∃ err : DispatchError, e.reason = err.message := by
  induction fs generalizing ch with
  | nil => cases h
  | cons f fs ih =>
    obtain ⟨hlater, hsorted⟩ := List.pairwise_cons.1 hsorted
    obtain ⟨hf, hfinds⟩ := hfinds.cons hlater
    rw [checkAll] at h
    split at h <;> rename_i heq
    · rw [heq] at hfinds
      exact ih hsorted hfinds h
    · cases h
      exact reason_checkEffect hf heq

theorem head?_append {a b : String} {c : Char} (h : a.toList.head? = some c) :
    (a ++ b).toList.head? = some c := by
  rw [String.toList_append, List.head?_append, h]
  rfl

theorem ne_of_head? {a b : String} {c d : Char} (ha : a.toList.head? = some c)
    (hb : b.toList.head? = some d) (h : c ≠ d) : a ≠ b := by
  rintro rfl
  exact h (Option.some.inj (ha.symm.trans hb))

theorem message_ne_unmounted (err : DispatchError) :
    err.message ≠ "physical context is not mounted" := by
  match err with
  | .servlet e =>
    exact ne_of_head? (c := 's') (d := 'p') (head?_append (by decide)) (by decide) (by decide)
  | .panic m =>
    exact ne_of_head? (c := 'c') (d := 'p') (head?_append (by decide)) (by decide) (by decide)
  | .instantiation n r =>
    exact ne_of_head? (c := 'e') (d := 'p') (head?_append (head?_append (head?_append (by decide))))
      (by decide) (by decide)

theorem apply_ne_unmounted {pool : Pool} {effect : String}
    (hsorted : fs.Pairwise fun f g => f.stage ≤ g.stage) (hfinds : s.Finds [] fs) :
    (s.apply pool fs).1 ≠ .error (refuse effect "physical context is not mounted") := by
  intro h
  unfold apply at h
  split at h
  · simp [refuse] at h
  · split at h <;> rename_i heq
    · cases h
      rcases reason_checkAll hsorted hfinds heq with ⟨name, hreason⟩ | ⟨err, hreason⟩
      · have hne : "unknown class " ++ name ≠ "physical context is not mounted" :=
          ne_of_head? (c := 'u') (d := 'p') (head?_append (by decide)) (by decide) (by decide)
        exact hne hreason.symm
      · exact message_ne_unmounted err hreason.symm
    · cases h

end Accepting

theorem consults_apply (s : InProcess) (pool : Pool) (fs : List Effect) :
    pool.Consults (s.apply pool fs).2 := by
  have h := s.consults_checkAll { pool := pool } fs
  unfold apply
  split
  · rfl
  · split <;> rename_i heq <;> rw [heq] at h <;> exact h

end InProcess

theorem Engine.consults_apply (engine : Engine) (pool : Pool) (fs : List Effect) :
    pool.Consults (engine.apply pool fs).2 := by
  cases engine with
  | idle => rfl
  | recording r => rfl
  | inProcess s => exact s.consults_apply pool fs

end ServletContainer
