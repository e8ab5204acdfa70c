import ServletContainer.Proofs.Deployment.Effects
import ServletContainer.Proofs.Dispatch.Lookups
import ServletContainer.Proofs.Engine.Check
import ServletContainer.Proofs.Server.Run

/-! The look-ups of a batch. The engine looks listeners up when it checks the effects, one for each activation
under a context, up to the first effect that it refuses; whoever is looked up is deployed then
(`Server.mem_submitActs`). Nothing else touches the pool (`Server.pool_submit`). -/
namespace ServletContainer

open Pool

namespace InProcess

def listenerActs (e : Element) (context : Option LogicalContext) : List Act :=
  match e.details, context with
  | .listener source, some _ => [.find e.id (.listener source)]
  | _, _ => []

def asks (s : InProcess) (ch : Check) : Effect → List Act
  | .activate e p context =>
    if !s.mounts.contains p && !ch.created.contains p then []
    else if s.checkClasses && !knowsClass ch.pool e then []
    else listenerActs e context
  | _ => []

def acts (s : InProcess) : Check → List Effect → List Act
  | _, [] => []
  | ch, f :: fs =>
    s.asks ch f ++
      match s.checkEffect ch f with
      | (.ok _, ch) => s.acts ch fs
      | (.error _, _) => []

variable {s : InProcess} {ch : Check} {f : Effect} {fs : List Effect} {a : Act}

theorem play_listenerActs (ch : Check) (e : Element) (p : ContextPath) (context : Option LogicalContext) :
    (findListener ch e p context).2.pool = ch.pool.play (listenerActs e context) := by
  cases hd : e.details with
  | listener source =>
    cases context with
    | none =>
      simp only [findListener, listenerActs, hd]
      rfl
    | some c =>
      simp only [findListener, listenerActs, hd]
      split <;> rename_i hlistener <;> exact (congrArg Prod.snd hlistener).symm
  | _ =>
    simp only [findListener, listenerActs, hd]
    rfl

theorem play_asks (s : InProcess) (ch : Check) (f : Effect) :
    (s.checkEffect ch f).2.pool = ch.pool.play (s.asks ch f) := by
  cases f with
  | activate e p context =>
    simp only [checkEffect, asks]
    split
    · rfl
    split
    · rfl
    have hfound := play_listenerActs ch e p context
    split <;> rename_i heq <;> rw [heq] at hfound <;> exact hfound
  | _ => rfl

theorem play_acts (s : InProcess) (ch : Check) (fs : List Effect) :
    (s.checkAll ch fs).2.pool = ch.pool.play (s.acts ch fs) := by
  induction fs generalizing ch with
  | nil => rfl
  | cons f fs ih =>
    have hasks := s.play_asks ch f
    rw [checkAll, acts, play_append, ← hasks]
    split <;> rename_i heq <;> rw [heq]
    · exact ih _
    · rfl

theorem mem_asks (h : a ∈ s.asks ch f) : ∃ e p context, f = .activate e p context ∧ e.lookup? = some a := by
  cases f with
  | activate e p context =>
    refine ⟨e, p, context, rfl, ?_⟩
    simp only [asks] at h
    split at h
    · cases h
    split at h
    · cases h
    unfold listenerActs at h
    split at h
    · rename_i hd
      rw [List.mem_singleton.1 h, Element.lookup?, hd]
      rfl
    · cases h
  | _ => cases h

theorem mem_acts (h : a ∈ s.acts ch fs) :
    ∃ e p context, .activate e p context ∈ fs ∧ e.lookup? = some a := by
  induction fs generalizing ch with
  | nil => cases h
  | cons f fs ih =>
    rcases List.mem_append.1 h with h | h
    · obtain ⟨e, p, context, rfl, ha⟩ := mem_asks h
      exact ⟨e, p, context, List.mem_cons_self, ha⟩
    · split at h
      · obtain ⟨e, p, context, hf, ha⟩ := ih h
        exact ⟨e, p, context, List.mem_cons_of_mem f hf, ha⟩
      · cases h

end InProcess

def Engine.acts (pool : Pool) (fs : List Effect) : Engine → List Act
  | .inProcess s => if s.running then s.acts { pool } fs else []
  | _ => []

theorem Engine.pool_apply (engine : Engine) (pool : Pool) (fs : List Effect) :
    (engine.apply pool fs).2 = pool.play (engine.acts pool fs) := by
  cases engine with
  | inProcess s =>
    simp only [apply, acts, InProcess.apply]
    cases s.running with
    | false => rfl
    | true =>
      have hplay := s.play_acts { pool } fs
      simp only [Bool.not_true, Bool.false_eq_true, if_false, if_true]
      rw [← hplay]
      split <;> rename_i heq <;> rw [heq]
  | _ => rfl

namespace Server

def effectActs (s : Server) (fs : List Effect) : List Act :=
  if fs.isEmpty then [] else s.engine.acts s.pool fs

theorem mem_effectActs {s : Server} {fs : List Effect} {a : Act} (h : a ∈ s.effectActs fs) :
    ∃ e p context, .activate e p context ∈ fs ∧ e.lookup? = some a := by
  unfold effectActs at h
  split at h
  · cases h
  · unfold Engine.acts at h
    split at h
    · split at h
      · exact InProcess.mem_acts h
      · cases h
    · cases h

def submitActs (s : Server) (b : Batch) : List Act :=
  match s.deployment.applyAll 0 b.changes with
  | .error _ => []
  | .ok changed =>
    s.effectActs (s.deployment.effects (s.deployment.rearbitrate changed).1 (Change.refreshed b.changes))

theorem pool_applyEffects (s : Server) (fs : List Effect) :
    (s.applyEffects fs).2 = s.pool.play (s.effectActs fs) := by
  unfold applyEffects effectActs
  split
  · rfl
  · exact s.engine.pool_apply s.pool fs

theorem pool_submit (s : Server) (b : Batch) : (s.submit b).2.pool = s.pool.play (s.submitActs b) := by
  unfold submit submitActs
  cases s.deployment.applyAll 0 b.changes with
  | error f => rfl
  | ok changed =>
    have hpool : (s.applyEffects (s.deployment.effects (s.deployment.rearbitrate changed).1
        (Change.refreshed b.changes))).2 = _ := s.pool_applyEffects _
    simp only
    split <;> rename_i heq <;> rw [heq] at hpool <;> exact hpool

/-- Only what is deployed then is looked up. -/
theorem mem_submitActs {s : Server} {b : Batch} {a : Act} (h : a ∈ s.submitActs b) :
    ∃ d, s.deployment.Commits b.changes d ∧ ∃ e ∈ d.elementList, e.lookup? = some a := by
  unfold submitActs at h
  split at h
  · cases h
  · rename_i changed hchanged
    refine ⟨_, ⟨changed, hchanged, rfl⟩, ?_⟩
    obtain ⟨e, p, context, hactivate, ha⟩ := mem_effectActs h
    obtain ⟨id, t, ht, _, rfl, _⟩ := Deployment.activate_mem_effects.1 hactivate
    exact ⟨t.element, List.mem_map_of_mem (OrdMap.mem_values_iff.2 ⟨id, ht⟩), ha⟩

end Server

end ServletContainer
