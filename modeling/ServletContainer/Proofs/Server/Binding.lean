import ServletContainer.Config.Manager
import ServletContainer.Proofs.Deployment.Effects
import ServletContainer.Proofs.Server.Security

/-! What an engine learns of contexts. Of each name, a committed batch unbinds the context that was there
and binds the one that is there now, unless both have the same rank and path (`filter_effects`). So a
context that is made anew in its place, with other settings, is not announced (`run_announced_iff`). -/
namespace ServletContainer

def Effect.context? : Effect → Option ContextId
  | .bindContext c => some c.id
  | .unbindContext id _ => some id
  | _ => none

def LogicalContext.Alike (o c : LogicalContext) : Prop := { o with order := c.order } = c

instance (o c : LogicalContext) : Decidable (o.Alike c) := inferInstanceAs (Decidable (_ = _))

namespace Deployment

variable {before after : Deployment} {refresh : OrdSet ContextPath} {id : ContextId}

/-- What a context of a name comes to: the one that was there before is unbound, the one that is there
now is bound. -/
def rebinding : Option LogicalContext → Option LogicalContext → List Effect
  | some o, some c =>
    if o.rank = c.rank ∧ o.path = c.path then [] else [.unbindContext o.id o.path, .bindContext c]
  | o, c => o.toList.map (fun o => .unbindContext o.id o.path) ++ c.toList.map .bindContext

theorem pairwise_rebinding (o c : Option LogicalContext) :
    (rebinding o c).Pairwise fun f g => f.stage < g.stage := by
  cases o <;> cases c <;> simp only [rebinding]
  · simp
  · simp
  · simp
  · split <;> simp [Effect.stage]

theorem rebinding_eq (hb : before.contexts.WellFormed) (ha : after.contexts.WellFormed) :
    rebinding (before.contexts.find? id) (after.contexts.find? id) =
      ((before.contexts.find? id).filter (isMoved after)).toList.map
          (fun o => .unbindContext o.id o.path) ++
        ((after.contexts.find? id).filter (isMoved before)).toList.map .bindContext := by
  cases hbefore : before.contexts.find? id with
  | none =>
    cases hafter : after.contexts.find? id with
    | none => rfl
    | some c =>
      have hnew : isMoved before c := by simp [isMoved_iff, ha.keyed id c hafter, hbefore]
      rw [Option.filter_some_pos hnew]
      rfl
  | some o =>
    cases hafter : after.contexts.find? id with
    | none =>
      have hgone : isMoved after o := by simp [isMoved_iff, hb.keyed id o hbefore, hafter]
      rw [Option.filter_some_pos hgone]
      rfl
    | some c =>
      have hold : isMoved after o ↔ ¬ (o.rank = c.rank ∧ o.path = c.path) := by
        rw [isMoved_iff, hb.keyed id o hbefore, hafter]
        simp [eq_comm]
      have hnew : isMoved before c ↔ ¬ (o.rank = c.rank ∧ o.path = c.path) := by
        simp [isMoved_iff, ha.keyed id c hafter, hbefore]
      by_cases hsame : o.rank = c.rank ∧ o.path = c.path
      · have hstays {x : Bool} (hx : x ↔ ¬ (o.rank = c.rank ∧ o.path = c.path)) : x = false :=
          Bool.eq_false_of_not_eq_true (not_not.2 hsame ∘ hx.1)
        rw [rebinding, if_pos hsame, Option.filter_some_neg (hstays hold),
          Option.filter_some_neg (hstays hnew)]
        rfl
      · rw [rebinding, if_neg hsame, Option.filter_some_pos (hold.2 hsame),
          Option.filter_some_pos (hnew.2 hsame)]
        rfl

theorem filter_effects (hb : before.contexts.WellFormed) (ha : after.contexts.WellFormed) :
    (effects before after refresh).filter (fun f => f.context? = some id) =
      rebinding (before.contexts.find? id) (after.contexts.find? id) := by
  have hunbound : ((before.contexts.logical.values.filter (isMoved after)).map fun c =>
        Effect.unbindContext c.id c.path).filter (fun f => f.context? = some id) =
      ((before.contexts.find? id).filter (isMoved after)).toList.map fun c =>
        .unbindContext c.id c.path := by
    rw [List.filter_map, ← hb.filter_values]
    simp [Function.comp_def, Effect.context?]
  have hbound : ((after.contexts.logical.values.filter (isMoved before)).map
        Effect.bindContext).filter (fun f => f.context? = some id) =
      ((after.contexts.find? id).filter (isMoved before)).toList.map .bindContext := by
    rw [List.filter_map, ← ha.filter_values]
    simp [Function.comp_def, Effect.context?]
  have hswitched : ((idsOf before after).flatMap (switchEffects before after)).filter
      (fun f => f.context? = some id) = [] := by
    refine List.filter_eq_nil_iff.2 fun f hf => ?_
    obtain ⟨i, hf⟩ := mem_switched.1 hf
    rcases mem_switchEffects.1 hf with ⟨_, _, _, _, rfl⟩ | ⟨_, _, _, _, rfl⟩ <;>
      simp [Effect.context?]
  have hperm : ((effects before after refresh).filter (fun f => f.context? = some id)).Perm
      (rebinding (before.contexts.find? id) (after.contexts.find? id)) := by
    refine ((sortBy_perm _ _).filter _).trans (.of_eq ?_)
    simp only [List.filter_append, hunbound, hbound, hswitched, rebinding_eq hb ha]
    simp [List.filter_map, Function.comp_def, Effect.context?]
  exact eq_of_perm_of_pairwise hperm ((pairwise_effects before after refresh).filter _)
    (pairwise_rebinding ..)

end Deployment

/-- A context that is new is bound. One that is another than the one of its name before, but for when it
was created, is bound once that one has been unbound. -/
def LogicalContext.Announced (fs : List Effect) (c : LogicalContext) : Option LogicalContext → Prop
  | none => .bindContext c ∈ fs
  | some o => ¬ o.Alike c → [.unbindContext o.id o.path, .bindContext c].Sublist fs

section Announced

variable {fs : List Effect} {o c : LogicalContext} {id : ContextId}

theorem sublist_iff_filter {xs : List Effect} (hxs : ∀ f ∈ xs, f.context? = some id) :
    xs.Sublist fs ↔ xs.Sublist (fs.filter fun f => f.context? = some id) := by
  refine ⟨fun h => ?_, fun h => h.trans List.filter_sublist⟩
  have hsame : xs.filter (fun f => f.context? = some id) = xs :=
    List.filter_eq_self.2 fun f hf => decide_eq_true (hxs f hf)
  exact hsame ▸ h.filter _

open Deployment

theorem announced_none (hfs : fs.filter (fun f => f.context? = some c.id) = rebinding none (some c)) :
    c.Announced fs none := by
  have hmem : .bindContext c ∈ fs.filter fun f => f.context? = some c.id := by
    rw [hfs]
    exact List.mem_singleton_self _
  exact (List.mem_filter.1 hmem).1

theorem announced_some_iff (ho : o.id = id) (hc : c.id = id)
    (hfs : fs.filter (fun f => f.context? = some id) = rebinding (some o) (some c)) :
    c.Announced fs (some o) ↔ (o.rank = c.rank → o.path = c.path → o.Alike c) := by
  have hsublist : [.unbindContext o.id o.path, .bindContext c].Sublist fs ↔
      ¬ (o.rank = c.rank ∧ o.path = c.path) := by
    have habout : ∀ f ∈ [Effect.unbindContext o.id o.path, .bindContext c], f.context? = some id := by
      simp [Effect.context?, ho, hc]
    rw [sublist_iff_filter habout, hfs, rebinding]
    split <;> rename_i hsame <;> simp [hsame]
  rw [LogicalContext.Announced, hsublist]
  tauto

end Announced

/-- In a run, the effects of a committed batch unbind and bind a context whenever its rank or path is
another one, and say nothing of it otherwise. So a context is announced exactly if it is new, differs in
rank or path, or differs in nothing else, either. (What a server submits on its own when it starts or stops,
and what a manager submits, is submitted in a state like these: what precedes it there is a step
`elsewhere`.) -/
theorem run_announced_iff (config : ServerConfig) (engine : Engine) (pool : Pool)
    (steps : List Server.Step) {b : Batch} {r : Report} {t : Server}
    (h : ((Server.new config engine pool).run steps).submit b = (.ok r, t)) (id : ContextId) :
    let before := ((Server.new config engine pool).run steps).deployment.contexts.find? id
    let after := t.deployment.contexts.find? id
    r.effects.filter (fun f => f.context? = some id) = Deployment.rebinding before after ∧
      ∀ c, after = some c → (c.Announced r.effects before ↔
        ∀ o, before = some o → o.rank = c.rank → o.path = c.path → o.Alike c) := by
  intro before after
  have hb := run_wellFormed config engine pool steps
  have ha := (Server.submit_ok h).wellFormed hb
  have heffects : r.effects.filter (fun f => f.context? = some id) =
      Deployment.rebinding before after := by
    rw [Server.effects_submit h]
    exact Deployment.filter_effects hb ha
  refine ⟨heffects, fun c hafter => ?_⟩
  have hc : c.id = id := ha.keyed id c hafter
  rw [hafter] at heffects
  cases hbefore : before with
  | none =>
    rw [hbefore, ← hc] at heffects
    simp [announced_none heffects]
  | some o =>
    rw [hbefore] at heffects
    have ho : o.id = id := hb.keyed id o hbefore
    rw [announced_some_iff ho hc heffects]
    simp

/-- A context that is added again at another path, with another time-out, is announced. -/
theorem run_announced_iff_moved :
    let main (path : String) (minutes : Nat) : LogicalContext :=
      ⟨"main", ⟨path⟩, 0, minutes, none, .standard, ∅, ⟨minutes, "JSESSIONID"⟩⟩
    let s := (Server.new {} .idle {}).run [.start, .submit ⟨"add", [.addContext (main "/m" 30)]⟩]
    let b : Batch := ⟨"move", [.removeContext "main", .addContext (main "/n" 5)]⟩
    ∃ r t, s.submit b = (.ok r, t) ∧ s.deployment.contexts.find? "main" = some (main "/m" 30) ∧
      t.deployment.contexts.find? "main" = some (main "/n" 5) ∧
      (main "/n" 5).Announced r.effects (some (main "/m" 30)) := by
  intro main s b
  have hok : (s.submit b).1.toBool := by decide +kernel
  have hbefore : s.deployment.contexts.find? "main" = some (main "/m" 30) := by decide +kernel
  have hafter : (s.submit b).2.deployment.contexts.find? "main" = some (main "/n" 5) := by
    decide +kernel
  obtain ⟨r, hr⟩ := exists_of_toBool hok
  have hiff := (run_announced_iff {} .idle {} _ hr "main").2 _ hafter
  rw [hbefore] at hiff
  refine ⟨r, _, hr, hbefore, hafter, hiff.2 ?_⟩
  rintro _ ⟨⟩ _ hpath
  exact absurd hpath (by decide)

/-- A reload that gives a declared context another time-out commits the new context, and tells the engine
nothing but that something was committed. -/
theorem session_unannounced :
    let declared (minutes : Nat) : Declared :=
      ⟨.ofList [("main", ⟨"main", "/m", 0, ∅, none, ⟨minutes, "JSESSIONID"⟩, none⟩)], ∅⟩
    let s := (Server.new {} (.recording {}) {}).start.2
    let x := ({} : ConfigManager).apply s (declared 30)
    let y := x.2.1.apply x.2.2 (declared 5)
    let find (t : Server) := t.deployment.contexts.find? "main"
    s.started ∧ x.1.toBool ∧ y.1.toOption.join.map (·.effects) = some [] ∧
      (find x.2.2).map (·.session.timeoutMinutes) = some 30 ∧
      (find y.2.2).map (·.session.timeoutMinutes) = some 5 ∧
      y.2.2.engine = x.2.2.engine.committed.2 := by
  decide +kernel

end ServletContainer
