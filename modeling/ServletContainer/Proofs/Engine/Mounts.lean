import ServletContainer.Engine.InProcess
import ServletContainer.Proofs.Ordered

/-! What the effects of a batch make of a mount. Each path can be looked at on its own
(`InProcess.find?_performAll`). Teardown precedes setup, so that a mount has in the end what is set up
in it, and what it had before and is not torn down (`Effect.foldl_remount_iff`). -/
namespace ServletContainer

namespace Effect

/-- What an effect makes of what is mounted at a path. -/
def remount (p : ContextPath) (o : Option Occupancy) : Effect → Option Occupancy
  | .createPhysical q => if q = p then some (o.getD {}) else o
  | .destroyPhysical q => if q = p then none else o
  | .bindContext c =>
    if c.path = p then o.map fun m => { m with contexts := m.contexts.insert c.id } else o
  | .unbindContext id q =>
    if q = p then o.map fun m => { m with contexts := m.contexts.erase id } else o
  | .activate e q _ =>
    if q = p then o.map fun m => { m with elements := m.elements.insert e.id } else o
  | .deactivate e q _ =>
    if q = p then o.map fun m => { m with elements := m.elements.erase e.id } else o
  | .updateFilters q fs =>
    if q = p then o.map fun m => { m with filters := fs.map (·.id) } else o

variable {p : ContextPath} {o : Option Occupancy} {f : Effect} {fs : List Effect}

theorem isSome_remount (ho : o.isSome) (hf : f ≠ .destroyPhysical p) : (f.remount p o).isSome := by
  cases f <;> simp only [remount] <;> split <;> simp_all

theorem mounted_remount (h : o.isSome ∨ .createPhysical p ∈ f :: fs) (hf : f ≠ .destroyPhysical p) :
    (f.remount p o).isSome ∨ .createPhysical p ∈ fs := by
  rcases h with ho | hmem
  · exact .inl (isSome_remount ho hf)
  · rcases List.mem_cons.1 hmem with rfl | hmem
    · exact .inl (by simp [remount])
    · exact .inr hmem

theorem remount_none (hf : f ≠ .createPhysical p) : f.remount p none = none := by
  cases f <;> simp only [remount] <;> split <;> simp_all

theorem isSome_foldl_remount (hmounted : o.isSome ∨ .createPhysical p ∈ fs)
    (hkept : .destroyPhysical p ∉ fs) : (fs.foldl (remount p) o).isSome := by
  induction fs generalizing o with
  | nil => simpa using hmounted
  | cons f fs ih =>
    obtain ⟨hf, hkept⟩ := not_or.1 (mt List.mem_cons.2 hkept)
    exact ih (mounted_remount hmounted (Ne.symm hf)) hkept

theorem foldl_remount_none (hnew : .createPhysical p ∉ fs) (hgone : o = none ∨ .destroyPhysical p ∈ fs) :
    fs.foldl (remount p) o = none := by
  induction fs generalizing o with
  | nil => simpa using hgone
  | cons f fs ih =>
    obtain ⟨hf, hnew⟩ := not_or.1 (mt List.mem_cons.2 hnew)
    refine ih hnew ?_
    rcases hgone with rfl | hmem
    · exact .inl (remount_none (Ne.symm hf))
    · rcases List.mem_cons.1 hmem with rfl | hmem
      · exact .inl (by simp [remount])
      · exact .inr hmem

/-- A fact about a mount that some effects of a setup stage bring about, some of a teardown stage undo,
and all others leave alone: it holds in the end if it was brought about, or held and was not undone. -/
theorem foldl_remount_iff (X : Option Occupancy → Prop) (on off : Effect → Prop)
    (hsorted : fs.Pairwise fun f g => f.stage ≤ g.stage)
    (hmounted : o.isSome ∨ .createPhysical p ∈ fs) (hkept : .destroyPhysical p ∉ fs)
    (hon : ∀ f ∈ fs, on f → 3 < f.stage ∧ ∀ m, X (f.remount p (some m)))
    (hoff : ∀ f ∈ fs, off f → f.stage < 3 ∧ ∀ o, ¬ X (f.remount p o))
    (hother : ∀ f ∈ fs, ¬ on f → ¬ off f → ∀ o, X (f.remount p o) ↔ X o) :
    X (fs.foldl (remount p) o) ↔ (∃ f ∈ fs, on f) ∨ X o ∧ ∀ f ∈ fs, ¬ off f := by
  induction fs generalizing o with
  | nil => simp
  | cons f fs ih =>
    obtain ⟨hlater, hsorted⟩ := List.pairwise_cons.1 hsorted
    obtain ⟨hf, hkept⟩ := not_or.1 (mt List.mem_cons.2 hkept)
    obtain ⟨hon, hon'⟩ := List.forall_mem_cons.1 hon
    obtain ⟨hoff, hoff'⟩ := List.forall_mem_cons.1 hoff
    obtain ⟨hother, hother'⟩ := List.forall_mem_cons.1 hother
    have hrest := ih hsorted (mounted_remount hmounted (Ne.symm hf)) hkept hon' hoff' hother'
    rw [List.foldl_cons, hrest, List.exists_mem_cons_iff, List.forall_mem_cons]
    by_cases h : on f
    · -- everything is mounted by now, and nothing is torn down any more
      obtain ⟨hstage, hX⟩ := hon h
      obtain ⟨m, rfl⟩ : ∃ m, o = some m := by
        refine Option.isSome_iff_exists.1 (hmounted.resolve_right fun hmem => ?_)
        rcases List.mem_cons.1 hmem with rfl | hmem
        · exact absurd hstage (by simp [stage])
        · have hle : f.stage ≤ 3 := hlater _ hmem
          omega
      have hnone : ∀ g ∈ fs, ¬ off g := fun g hg hg' => by
        have := hlater g hg
        have := (hoff' g hg hg').1
        omega
      simp only [h, hX m, true_and, true_or, iff_true]
      exact .inr hnone
    · by_cases h' : off f
      · have hX := (hoff h').2 o
        simp [h, h', hX]
      · simp [h, h', hother h h' o]

section Parts

variable (hsorted : fs.Pairwise fun f g => f.stage ≤ g.stage)
  (hmounted : o.isSome ∨ .createPhysical p ∈ fs) (hkept : .destroyPhysical p ∉ fs)

include hsorted hmounted hkept

theorem mem_contexts_foldl_remount {id : ContextId} :
    id ∈ ((fs.foldl (remount p) o).getD {}).contexts.elems ↔
      (∃ f ∈ fs, ∃ c, f = .bindContext c ∧ c.id = id ∧ c.path = p) ∨
        id ∈ (o.getD {}).contexts.elems ∧ ∀ f ∈ fs, ¬ f = .unbindContext id p := by
  rw [foldl_remount_iff (fun o => id ∈ (o.getD {}).contexts.elems)
    (fun f => ∃ c, f = .bindContext c ∧ c.id = id ∧ c.path = p) (fun f => f = .unbindContext id p)
    hsorted hmounted hkept]
  · rintro _ _ ⟨c, rfl, rfl, rfl⟩
    exact ⟨by simp [stage], fun m => by simp [remount]⟩
  · rintro _ _ rfl
    exact ⟨by simp [stage], fun o => by cases o <;> simp [remount]⟩
  · intro f hf hon hoff o
    cases f <;> simp only [remount] <;> split <;> cases o <;> simp_all
    exact fun h => absurd h.symm hon

theorem mem_elements_foldl_remount {id : ElementId} :
    id ∈ ((fs.foldl (remount p) o).getD {}).elements.elems ↔
      (∃ f ∈ fs, ∃ e c, f = .activate e p c ∧ e.id = id) ∨
        id ∈ (o.getD {}).elements.elems ∧ ∀ f ∈ fs, ¬ ∃ e c, f = .deactivate e p c ∧ e.id = id := by
  rw [foldl_remount_iff (fun o => id ∈ (o.getD {}).elements.elems)
    (fun f => ∃ e c, f = .activate e p c ∧ e.id = id)
    (fun f => ∃ e c, f = .deactivate e p c ∧ e.id = id) hsorted hmounted hkept]
  · rintro _ _ ⟨e, c, rfl, rfl⟩
    exact ⟨by simp [stage], fun m => by simp [remount]⟩
  · rintro _ _ ⟨e, c, rfl, rfl⟩
    exact ⟨by simp [stage], fun o => by cases o <;> simp [remount]⟩
  · intro f hf hon hoff o
    cases f <;> simp only [remount] <;> split <;> cases o <;> simp_all
    exact fun h => absurd h.symm hon

theorem filters_foldl_remount {ids : List ElementId}
    (hids : ∀ gs, .updateFilters p gs ∈ fs → gs.map (·.id) = ids) :
    ((fs.foldl (remount p) o).getD {}).filters = ids ↔
      (∃ f ∈ fs, ∃ gs, f = .updateFilters p gs) ∨ (o.getD {}).filters = ids := by
  rw [foldl_remount_iff (fun o => (o.getD {}).filters = ids) (fun f => ∃ gs, f = .updateFilters p gs)
    (fun _ => False) hsorted hmounted hkept]
  · simp
  · rintro _ hf ⟨gs, rfl⟩
    exact ⟨by simp [stage], fun m => by simp [remount, hids gs hf]⟩
  · exact fun _ _ h => h.elim
  · intro f hf hon _ o
    cases f <;> simp only [remount] <;> split <;> cases o <;> simp_all

end Parts

end Effect

namespace InProcess

def mountedAt (s : InProcess) (p : ContextPath) : Occupancy := (s.mounts.find? p).getD {}

theorem find?_modifyMount (s : InProcess) (p q : ContextPath) (f : Occupancy → Occupancy) :
    (s.modifyMount p f).mounts.find? q =
      if p = q then (s.mounts.find? q).map f else s.mounts.find? q :=
  OrdMap.find?_modify ..

theorem find?_perform (s : InProcess) (found : Attendance) (f : Effect) (p : ContextPath) :
    (s.perform found f).1.mounts.find? p = f.remount p (s.mounts.find? p) := by
  cases f with
  | createPhysical q =>
    simp only [perform, Effect.remount]
    split <;> rename_i h
    · split
      · rename_i hq
        obtain ⟨m, hm⟩ := Option.isSome_iff_exists.1 h
        rw [← hq, hm]
        rfl
      · rfl
    · rw [OrdMap.find?_insert_eq]
      have hnone : s.mounts.find? q = none := by simpa [OrdMap.contains] using h
      by_cases hq : q = p
      · simp [← hq, hnone]
      · simp [hq, Ne.symm hq]
  | destroyPhysical q => exact OrdMap.find?_erase_eq ..
  | bindContext c => exact s.find?_modifyMount ..
  | unbindContext id q => exact s.find?_modifyMount ..
  | updateFilters q fs => exact s.find?_modifyMount ..
  | activate e q context =>
    simp only [perform, activate]
    split <;> exact s.find?_modifyMount ..
  | deactivate e q context =>
    simp only [perform, deactivate]
    split <;> exact s.find?_modifyMount ..

theorem find?_performAll (s : InProcess) (found : Attendance) (fs : List Effect) (p : ContextPath) :
    (s.performAll found fs).1.mounts.find? p = fs.foldl (Effect.remount p) (s.mounts.find? p) := by
  induction fs generalizing s found with
  | nil => rfl
  | cons f fs ih => rw [performAll, ih, find?_perform, List.foldl_cons]

theorem find?_apply {s t : InProcess} {pool pool' : Pool} {fs : List Effect}
    (h : s.apply pool fs = (.ok t, pool')) (p : ContextPath) :
    t.mounts.find? p = fs.foldl (Effect.remount p) (s.mounts.find? p) := by
  unfold apply at h
  split at h
  · cases h
  · split at h
    · cases h
    · cases h
      exact find?_performAll ..

end InProcess

end ServletContainer
