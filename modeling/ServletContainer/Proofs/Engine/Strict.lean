import ServletContainer.Deployment.Effect
import ServletContainer.Proofs.Ordered

/-! An engine that keeps account of what it has been handed and refuses every effect that does not fit,
such as a context for a mount that is not there. Of a list in stage order, all that precedes an effect can
be told from which effects stand before it (`Ledger.mem_foldl_enter`), so that such a list is accepted if
each effect fits there (`Ledger.replay_eq_some`). -/
namespace ServletContainer

inductive Holding where
  | mount (p : ContextPath)
  | context (id : ContextId) (p : ContextPath)
  /-- This very copy of an element is active. -/
  | element (e : Element) (p : ContextPath)
  deriving DecidableEq

abbrev Ledger := List Holding

namespace Holding

def path : Holding → ContextPath
  | mount p => p
  | context _ p => p
  | element _ p => p

/-- The stage in which it is taken away. -/
def lossStage : Holding → Nat
  | element .. => 0
  | context .. => 1
  | mount _ => 2

def gainStage : Holding → Nat
  | mount _ => 3
  | context .. => 4
  | element .. => 5

theorem lossStage_lt_gainStage (x : Holding) : x.lossStage < x.gainStage := by
  cases x <;> simp [lossStage, gainStage]

def IsAt (id : ElementId) (p : ContextPath) : Holding → Prop
  | element e q => e.id = id ∧ q = p
  | _ => False

instance (id : ElementId) (p : ContextPath) (x : Holding) : Decidable (x.IsAt id p) :=
  match x with
  | element .. => inferInstanceAs (Decidable (_ ∧ _))
  | mount _ => inferInstanceAs (Decidable False)
  | context .. => inferInstanceAs (Decidable False)

end Holding

namespace Effect

def gain? : Effect → Option Holding
  | .createPhysical p => some (.mount p)
  | .bindContext c => some (.context c.id c.path)
  | .activate e p _ => some (.element e p)
  | _ => none

def loss? : Effect → Option Holding
  | .destroyPhysical p => some (.mount p)
  | .unbindContext id p => some (.context id p)
  | .deactivate e p _ => some (.element e p)
  | _ => none

variable {f : Effect} {x : Holding}

theorem stage_of_gain? (h : f.gain? = some x) : f.stage = x.gainStage := by
  cases f <;> cases h <;> rfl

theorem stage_of_loss? (h : f.loss? = some x) : f.stage = x.lossStage := by
  cases f <;> cases h <;> rfl

variable {id : ContextId} {p : ContextPath} {e : Element}

@[simp] theorem gain?_eq_mount : f.gain? = some (.mount p) ↔ f = .createPhysical p := by
  cases f <;> simp [gain?]

@[simp] theorem gain?_eq_context : f.gain? = some (.context id p) ↔
    ∃ c, f = .bindContext c ∧ c.id = id ∧ c.path = p := by
  cases f <;> simp [gain?]

@[simp] theorem gain?_eq_element : f.gain? = some (.element e p) ↔ ∃ c, f = .activate e p c := by
  cases f <;> simp [gain?]

@[simp] theorem loss?_eq_mount : f.loss? = some (.mount p) ↔ f = .destroyPhysical p := by
  cases f <;> simp [loss?]

@[simp] theorem loss?_eq_context : f.loss? = some (.context id p) ↔ f = .unbindContext id p := by
  cases f <;> simp [loss?]

@[simp] theorem loss?_eq_element : f.loss? = some (.element e p) ↔ ∃ c, f = .deactivate e p c := by
  cases f <;> simp [loss?]

end Effect

namespace Ledger

/-- The effect fits what the engine has. -/
def Admits (l : Ledger) : Effect → Prop
  | .createPhysical p => .mount p ∉ l
  | .destroyPhysical p => .mount p ∈ l ∧ ∀ x ∈ l, x.path = p → x = .mount p
  | .bindContext c => .mount c.path ∈ l ∧ .context c.id c.path ∉ l
  | .unbindContext id p => .context id p ∈ l
  | .activate _ _ none => False
  | .activate e p (some c) => .mount p ∈ l ∧ .context c.id p ∈ l ∧ ∀ x ∈ l, ¬ x.IsAt e.id p
  | .deactivate e p _ => .element e p ∈ l
  | .updateFilters p fs => .mount p ∈ l ∧ ∀ f ∈ fs, .element f p ∈ l

instance (l : Ledger) (f : Effect) : Decidable (l.Admits f) :=
  match f with
  | .createPhysical _ => inferInstanceAs (Decidable (_ ∉ _))
  | .destroyPhysical _ => inferInstanceAs (Decidable (_ ∧ _))
  | .bindContext _ => inferInstanceAs (Decidable (_ ∧ _))
  | .unbindContext .. => inferInstanceAs (Decidable (_ ∈ _))
  | .activate _ _ none => inferInstanceAs (Decidable False)
  | .activate _ _ (some _) => inferInstanceAs (Decidable (_ ∧ _))
  | .deactivate .. => inferInstanceAs (Decidable (_ ∈ _))
  | .updateFilters .. => inferInstanceAs (Decidable (_ ∧ _))

/-- Enters an effect into the books. -/
def enter (l : Ledger) (f : Effect) : Ledger := f.gain?.toList ++ l.filter fun x => f.loss? ≠ some x

/-- Enters effects in order, unless one does not fit. -/
def replay : Ledger → List Effect → Option Ledger
  | l, [] => some l
  | l, f :: fs => if l.Admits f then (l.enter f).replay fs else none

variable {l m : Ledger} {f : Effect} {fs gs : List Effect} {x : Holding}

theorem mem_enter : x ∈ l.enter f ↔ f.gain? = some x ∨ x ∈ l ∧ f.loss? ≠ some x := by
  simp [enter]

/-- What the engine has after some effects in stage order: what they handed over, and what it had and they
did not take away. -/
theorem mem_foldl_enter (hsorted : fs.Pairwise fun f g => f.stage ≤ g.stage) :
    x ∈ fs.foldl enter l ↔
      (∃ f ∈ fs, f.gain? = some x) ∨ x ∈ l ∧ ∀ f ∈ fs, f.loss? ≠ some x := by
  induction fs generalizing l with
  | nil => simp
  | cons f fs ih =>
    obtain ⟨hlater, hsorted⟩ := List.pairwise_cons.1 hsorted
    rw [List.foldl_cons, ih hsorted, mem_enter, List.exists_mem_cons_iff, List.forall_mem_cons]
    by_cases hgain : f.gain? = some x
    · -- whatever takes the same away would stand before
      have hnone : ∀ g ∈ fs, g.loss? ≠ some x := fun g hg hloss => by
        have hle := hlater g hg
        rw [Effect.stage_of_gain? hgain, Effect.stage_of_loss? hloss] at hle
        exact absurd x.lossStage_lt_gainStage (Nat.not_lt.2 hle)
      simpa [hgain] using .inr hnone
    · simp [hgain, and_assoc]

theorem replay_append : l.replay (fs ++ gs) = (l.replay fs).bind fun m => m.replay gs := by
  induction fs generalizing l with
  | nil => rfl
  | cons f fs ih =>
    rw [List.cons_append, replay, replay]
    split
    · exact ih
    · rfl

/-- A list is accepted if each of its effects fits what the ones before it have left. -/
theorem replay_eq_some (h : ∀ xs f ys, fs = xs ++ f :: ys → Admits (xs.foldl enter l) f) :
    l.replay fs = some (fs.foldl enter l) := by
  induction fs generalizing l with
  | nil => rfl
  | cons f fs ih =>
    have hf : l.Admits f := h [] f fs rfl
    rw [replay, if_pos hf, List.foldl_cons]
    exact ih fun xs g ys hfs => h (f :: xs) g ys (by rw [hfs, List.cons_append])

end Ledger

end ServletContainer
