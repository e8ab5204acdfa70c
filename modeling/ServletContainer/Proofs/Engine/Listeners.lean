import ServletContainer.Proofs.Engine.Check
import ServletContainer.Proofs.Ordered

/-! The listener of a post. Each post can be looked at on its own (`InProcess.seat_performAll`). As long
as whoever is there is dismissed before somebody new is greeted, listeners take turns at it, and each is
dismissed as the one that was greeted (`InProcess.takeTurns_apply`). -/
namespace ServletContainer

def Notice.isAt (post : Post) (n : Notice) : Bool := decide ((n.element, n.path) = post)

@[simp] theorem Notice.isAt_mk (post : Post) (up : Bool) (id : ElementId) (p : ContextPath)
    (l : Instance Listener) (v : View) :
    (Notice.mk up id p l v).isAt post = decide ((id, p) = post) := rfl

/-- The calls greet and dismiss by turns, and each dismisses the one that was greeted before. The second
argument is who has been greeted and not yet dismissed. -/
inductive TakeTurns : List Notice → Option (Instance Listener) → Prop
  | none : TakeTurns [] none
  | greet {ns : List Notice} (n : Notice) : TakeTurns ns none → n.up = true →
      TakeTurns (ns ++ [n]) (some n.listener)
  | dismiss {ns : List Notice} (n : Notice) : TakeTurns ns (some n.listener) → n.up = false →
      TakeTurns (ns ++ [n]) none

namespace Attendance

variable (r : Attendance) (post other : Post) (l : Instance Listener)

theorem lookup_cons : List.lookup other ((post, l) :: r) =
    if other = post then some l else r.lookup other := by
  by_cases h : other = post
  · subst h
    simp
  · rw [List.lookup_cons, beq_false_of_ne h, if_neg h]

theorem lookup_filter : (r.filter fun x => x.1 ≠ post).lookup other =
    if other = post then none else r.lookup other := by
  induction r with
  | nil => simp
  | cons x r ih =>
    obtain ⟨q, i⟩ := x
    rw [List.filter_cons, lookup_cons]
    split
    · rw [lookup_cons, ih]
      split <;> simp_all
    · rw [ih]
      split <;> simp_all

@[simp] theorem release_fst : (r.release post).1 = r.lookup post := rfl

theorem lookup_release : (r.release post).2.lookup other =
    if other = post then none else r.lookup other :=
  lookup_filter ..

theorem lookup_appoint : (r.appoint post l).lookup other =
    if other = post then some l else r.lookup other := by
  rw [appoint, lookup_cons, lookup_release]
  split <;> rfl

end Attendance

/-- What concerns one post: who has it, who was found for it, and the calls so far. -/
structure Seat where
  listener : Option (Instance Listener)
  found : Option (Instance Listener)
  calls : List Notice

/-- What an effect makes of a post. -/
def Effect.attend (post : Post) (s : Seat) : Effect → Seat
  | .activate e p context =>
    if (e.id, p) = post then
      match s.found, context with
      | some l, some c => ⟨some l, none, s.calls ++ [⟨true, e.id, p, l, ⟨c, e.owner⟩⟩]⟩
      | _, _ => { s with found := none }
    else s
  | .deactivate e p context =>
    if (e.id, p) = post then
      match s.listener, context with
      | some l, some c =>
        { s with listener := none, calls := s.calls ++ [⟨false, e.id, p, l, ⟨c, e.owner⟩⟩] }
      | _, _ => { s with listener := none }
    else s
  | _ => s

namespace InProcess

variable {post : Post} {fs : List Effect} {f : Effect}

def seat (s : InProcess) (found : Attendance) (post : Post) : Seat :=
  ⟨s.listeners.lookup post, found.lookup post, s.pending.filter (·.isAt post)⟩

theorem seat_activate (s : InProcess) (found : Attendance) (e : Element) (p : ContextPath)
    (context : Option LogicalContext) (post : Post) :
    (s.activate found e p context).1.seat (s.activate found e p context).2 post =
      (Effect.activate e p context).attend post (s.seat found post) := by
  by_cases hpost : (e.id, p) = post
  · subst hpost
    cases hl : found.lookup (e.id, p) <;> cases context <;>
      simp [activate, Effect.attend, seat, hl, Attendance.lookup_release, Attendance.lookup_appoint,
        modifyMount, notify]
  · cases hl : found.lookup (e.id, p) <;> cases context <;>
      simp [activate, Effect.attend, seat, hl, Attendance.lookup_release, Attendance.lookup_appoint,
        modifyMount, notify, hpost, Ne.symm hpost]

theorem seat_deactivate (s : InProcess) (found : Attendance) (e : Element) (p : ContextPath)
    (context : Option LogicalContext) (post : Post) :
    (s.deactivate e p context).seat found post =
      (Effect.deactivate e p context).attend post (s.seat found post) := by
  by_cases hpost : (e.id, p) = post
  · subst hpost
    cases hl : s.listeners.lookup (e.id, p) <;> cases context <;>
      simp [deactivate, Effect.attend, seat, hl, Attendance.lookup_release, modifyMount, notify]
  · cases hl : s.listeners.lookup (e.id, p) <;> cases context <;>
      simp [deactivate, Effect.attend, seat, hl, Attendance.lookup_release, modifyMount, notify, hpost,
        Ne.symm hpost]

theorem seat_perform (s : InProcess) (found : Attendance) (f : Effect) (post : Post) :
    (s.perform found f).1.seat (s.perform found f).2 post = f.attend post (s.seat found post) := by
  cases f with
  | activate e p context => exact s.seat_activate ..
  | deactivate e p context => exact s.seat_deactivate ..
  | createPhysical p =>
    simp only [perform, Effect.attend]
    split <;> rfl
  | _ => rfl

/-- What becomes of a post can be told from the effects alone. -/
theorem seat_performAll (s : InProcess) (found : Attendance) (fs : List Effect) (post : Post) :
    (s.performAll found fs).1.seat (s.performAll found fs).2 post =
      fs.foldl (Effect.attend post) (s.seat found post) := by
  induction fs generalizing s found with
  | nil => rfl
  | cons f fs ih => rw [performAll, ih, seat_perform, List.foldl_cons]

end InProcess

namespace Effect

variable {post : Post} {fs : List Effect} {f : Effect} {s : Seat} {base : List Notice}

def Opens (post : Post) (f : Effect) : Prop := ∃ e c, f = .activate e post.2 c ∧ e.id = post.1

def Closes (post : Post) (f : Effect) : Prop := ∃ e c, f = .deactivate e post.2 c ∧ e.id = post.1

def Greets (post : Post) (f : Effect) : Prop :=
  ∃ e c, f = .activate e post.2 (some c) ∧ e.id = post.1 ∧ e.kind = .listener

theorem greets_activate {e : Element} {p : ContextPath} {context : Option LogicalContext} :
    (Effect.activate e p context).Greets post ↔
      (e.id, p) = post ∧ e.kind = .listener ∧ context.isSome := by
  obtain ⟨id, q⟩ := post
  simp only [Greets, Effect.activate.injEq, Option.isSome_iff_exists, Prod.mk.injEq]
  constructor
  · rintro ⟨_, c, ⟨rfl, rfl, rfl⟩, rfl, hkind⟩
    exact ⟨⟨rfl, rfl⟩, hkind, c, rfl⟩
  · rintro ⟨⟨rfl, rfl⟩, hkind, c, rfl⟩
    exact ⟨e, c, ⟨rfl, rfl, rfl⟩, rfl, hkind⟩

/-- What is switched is switched under a context. -/
def Placed (f : Effect) : Prop := ∀ e p, f ≠ .activate e p none ∧ f ≠ .deactivate e p none

theorem Opens.not_closes (h : f.Opens post) : ¬ f.Closes post := by
  obtain ⟨_, _, rfl, _⟩ := h
  simp [Closes]

theorem Opens.stage (h : f.Opens post) : f.stage = 5 := by
  obtain ⟨_, _, rfl, _⟩ := h
  rfl

theorem Closes.stage (h : f.Closes post) : f.stage = 0 := by
  obtain ⟨_, _, rfl, _⟩ := h
  rfl

theorem attend_of_not (hopens : ¬ f.Opens post) (hcloses : ¬ f.Closes post) : f.attend post s = s := by
  cases f with
  | activate e p c =>
    refine if_neg fun hpost => hopens ⟨e, c, ?_, congrArg Prod.fst hpost⟩
    rw [← hpost]
  | deactivate e p c =>
    refine if_neg fun hpost => hcloses ⟨e, c, ?_, congrArg Prod.fst hpost⟩
    rw [← hpost]
  | _ => rfl

theorem Opens.attend (h : f.Opens post) (hplaced : f.Placed) :
    (s.found = none ∧ f.attend post s = s) ∨
      ∃ n : Notice, n.up = true ∧ s.found = some n.listener ∧
        f.attend post s = ⟨some n.listener, none, s.calls ++ [n]⟩ := by
  obtain ⟨e, _ | c, rfl, hid⟩ := h
  · exact ((hplaced e post.2).1 rfl).elim
  · have hpost : (e.id, post.2) = post := by rw [hid]
    obtain ⟨listener, _ | l, calls⟩ := s
    · exact .inl ⟨rfl, if_pos hpost⟩
    · exact .inr ⟨⟨true, e.id, post.2, l, ⟨c, e.owner⟩⟩, rfl, rfl, if_pos hpost⟩

theorem Closes.attend (h : f.Closes post) (hplaced : f.Placed) :
    (s.listener = none ∧ f.attend post s = s) ∨
      ∃ n : Notice, n.up = false ∧ s.listener = some n.listener ∧
        f.attend post s = ⟨none, s.found, s.calls ++ [n]⟩ := by
  obtain ⟨e, _ | c, rfl, hid⟩ := h
  · exact ((hplaced e post.2).2 rfl).elim
  · have hpost : (e.id, post.2) = post := by rw [hid]
    obtain ⟨_ | l, found, calls⟩ := s
    · exact .inl ⟨rfl, if_pos hpost⟩
    · exact .inr ⟨⟨false, e.id, post.2, l, ⟨c, e.owner⟩⟩, rfl, rfl, if_pos hpost⟩

/-- Listeners take turns at a post, provided that whoever is there is dismissed if somebody else comes. In
the end somebody is there if he came, or was there and was not dismissed. -/
theorem takeTurns_foldl_attend (hsorted : fs.Pairwise fun f g => f.stage ≤ g.stage)
    (hplaced : ∀ f ∈ fs, f.Placed)
    (hfree : s.listener.isSome → s.found.isSome → (∃ f ∈ fs, f.Opens post) → ∃ f ∈ fs, f.Closes post)
    (hturns : TakeTurns (base ++ s.calls) s.listener) :
    TakeTurns (base ++ (fs.foldl (Effect.attend post) s).calls)
        (fs.foldl (Effect.attend post) s).listener ∧
      ((fs.foldl (Effect.attend post) s).listener.isSome ↔
        (s.found.isSome ∧ ∃ f ∈ fs, f.Opens post) ∨
          s.listener.isSome ∧ ∀ f ∈ fs, ¬ f.Closes post) := by
  induction fs generalizing s with
  | nil => simpa using hturns
  | cons f fs ih =>
    obtain ⟨hlater, hsorted⟩ := List.pairwise_cons.1 hsorted
    obtain ⟨hf, hplaced⟩ := List.forall_mem_cons.1 hplaced
    rw [List.exists_mem_cons_iff] at hfree ⊢
    rw [List.exists_mem_cons_iff] at hfree
    rw [List.foldl_cons, List.forall_mem_cons]
    by_cases hopens : f.Opens post
    · -- nobody is dismissed any more once activations have begun
      have hnone : ∀ g ∈ fs, ¬ g.Closes post := fun g hg hcloses => by
        have := hlater g hg
        rw [hopens.stage, hcloses.stage] at this
        omega
      have hcloses := hopens.not_closes
      rcases hopens.attend hf with ⟨hfound, hs⟩ | ⟨n, hup, hfound, hs⟩
      · rw [hs]
        obtain ⟨hturns, hiff⟩ := ih hsorted hplaced (by simp [hfound]) hturns
        exact ⟨hturns, hiff.trans (by simp [hfound, hcloses])⟩
      · have hfree : s.listener = none := by
          by_contra hsome
          obtain hc | ⟨g, hg, hc⟩ := hfree (Option.isSome_iff_ne_none.2 hsome) (by simp [hfound])
            (.inl hopens)
          · exact hcloses hc
          · exact hnone g hg hc
        rw [hfree] at hturns
        have hgreeted : TakeTurns (base ++ (s.calls ++ [n])) (some n.listener) := by
          rw [← List.append_assoc]
          exact hturns.greet n hup
        rw [hs]
        obtain ⟨hturns, hiff⟩ := ih (s := ⟨some n.listener, none, s.calls ++ [n]⟩) hsorted hplaced
          (by simp) hgreeted
        exact ⟨hturns, hiff.trans (by simpa [hfound, hopens] using hnone)⟩
    · by_cases hcloses : f.Closes post
      · rcases hcloses.attend hf with ⟨hlistener, hs⟩ | ⟨n, hup, hlistener, hs⟩
        · rw [hs]
          obtain ⟨hturns, hiff⟩ := ih hsorted hplaced (by simp [hlistener]) hturns
          exact ⟨hturns, hiff.trans (by simp [hlistener, hopens])⟩
        · rw [hlistener] at hturns
          have hdismissed : TakeTurns (base ++ (s.calls ++ [n])) none := by
            rw [← List.append_assoc]
            exact hturns.dismiss n hup
          rw [hs]
          obtain ⟨hturns, hiff⟩ := ih (s := ⟨none, s.found, s.calls ++ [n]⟩) hsorted hplaced
            (by simp) hdismissed
          exact ⟨hturns, hiff.trans (by simp [hopens, hcloses])⟩
      · rw [attend_of_not hopens hcloses]
        simp only [hopens, hcloses, false_or, not_false_eq_true, true_and] at hfree ⊢
        exact ih hsorted hplaced hfree hturns

end Effect

namespace InProcess

variable {s t : InProcess} {pool pool' : Pool} {ch ch' : Check} {fs : List Effect} {f : Effect}
  {post : Post} {base : List Notice}

theorem kind_eq_listener {e : Element} :
    e.kind = .listener ↔ ∃ source, e.details = .listener source := by
  unfold Element.kind Details.kind
  cases e.details <;> simp

theorem found_findListener {e : Element} {p : ContextPath} {context : Option LogicalContext}
    (h : findListener ch e p context = (.ok (), ch')) : (ch'.found.lookup post).isSome ↔
      (ch.found.lookup post).isSome ∨ (Effect.activate e p context).Greets post := by
  rw [Effect.greets_activate, kind_eq_listener]
  unfold findListener at h
  split at h
  · rename_i source c hdetails
    split at h
    · cases h
      rw [Attendance.lookup_appoint]
      by_cases hpost : post = (e.id, p)
      · simp [hpost, hdetails]
      · simp [hpost, Ne.symm hpost]
    · cases h
  · rename_i hno
    cases h
    refine (or_iff_left fun ⟨_, ⟨source, hdetails⟩, hsome⟩ => ?_).symm
    obtain ⟨c, hc⟩ := Option.isSome_iff_exists.1 hsome
    exact hno source c hdetails hc

theorem found_checkEffect (h : s.checkEffect ch f = (.ok (), ch')) :
    (ch'.found.lookup post).isSome ↔ (ch.found.lookup post).isSome ∨ f.Greets post := by
  cases f with
  | activate e p context =>
    simp only [checkEffect] at h
    split at h
    · cases h
    · split at h
      · cases h
      · split at h <;> rename_i hfind <;> cases h
        exact found_findListener hfind
  | _ =>
    cases h
    simp [Effect.Greets]

theorem found_checkAll (h : s.checkAll ch fs = (.ok (), ch')) : (ch'.found.lookup post).isSome ↔
    (ch.found.lookup post).isSome ∨ ∃ f ∈ fs, f.Greets post := by
  induction fs generalizing ch with
  | nil =>
    cases h
    simp
  | cons f fs ih =>
    rw [checkAll] at h
    split at h <;> rename_i hf
    · rw [ih h, found_checkEffect hf, List.exists_mem_cons_iff, or_assoc]
    · cases h

def mode (s : InProcess) : Bool × Bool := (s.running, s.checkClasses)

theorem mode_perform (s : InProcess) (found : Attendance) (f : Effect) :
    (s.perform found f).1.mode = s.mode := by
  cases f with
  | createPhysical p =>
    simp only [perform]
    split <;> rfl
  | activate e p context =>
    simp only [perform, activate]
    split <;> rfl
  | deactivate e p context =>
    simp only [perform, deactivate]
    split <;> rfl
  | _ => rfl

theorem mode_performAll (s : InProcess) (found : Attendance) (fs : List Effect) :
    (s.performAll found fs).1.mode = s.mode := by
  induction fs generalizing s found with
  | nil => rfl
  | cons f fs ih => rw [performAll, ih, mode_perform]

theorem apply_ok (h : s.apply pool fs = (.ok t, pool')) : s.running ∧
    ∃ ch, s.checkAll { pool := pool } fs = (.ok (), ch) ∧ t = (s.performAll ch.found fs).1 := by
  unfold apply at h
  split at h
  · cases h
  · rename_i hrunning
    split at h <;> rename_i hcheck
    · cases h
    · cases h
      exact ⟨by simpa using hrunning, _, hcheck, rfl⟩

/-- Listeners take turns at a post while a list of effects is done. In the end somebody is there if he was
greeted, or was there and was not dismissed. -/
theorem takeTurns_apply (h : s.apply pool fs = (.ok t, pool'))
    (hsorted : fs.Pairwise fun f g => f.stage ≤ g.stage) (hplaced : ∀ f ∈ fs, f.Placed)
    (hpending : s.pending = [])
    (hfree : (s.listeners.lookup post).isSome → (∃ f ∈ fs, f.Opens post) → ∃ f ∈ fs, f.Closes post)
    (hturns : TakeTurns base (s.listeners.lookup post)) :
    TakeTurns (base ++ t.pending.filter (·.isAt post)) (t.listeners.lookup post) ∧
      ((t.listeners.lookup post).isSome ↔
        (∃ f ∈ fs, f.Greets post) ∨
          (s.listeners.lookup post).isSome ∧ ∀ f ∈ fs, ¬ f.Closes post) := by
  obtain ⟨_, ch, hcheck, rfl⟩ := apply_ok h
  have hfound : (ch.found.lookup post).isSome ↔ ∃ f ∈ fs, f.Greets post := by
    rw [found_checkAll hcheck]
    simp
  have hgreets : (∃ f ∈ fs, f.Greets post) → ∃ f ∈ fs, f.Opens post :=
    fun ⟨f, hf, e, c, hfe, hid, _⟩ => ⟨f, hf, e, some c, hfe, hid⟩
  have hstart : TakeTurns (base ++ (s.seat ch.found post).calls) (s.seat ch.found post).listener := by
    simpa [seat, hpending] using hturns
  have hseat := Effect.takeTurns_foldl_attend hsorted hplaced
    (fun hsome _ hopens => hfree hsome hopens) hstart
  rw [← seat_performAll] at hseat
  refine ⟨hseat.1, hseat.2.trans (or_congr_left ?_)⟩
  rw [show (s.seat ch.found post).found = ch.found.lookup post from rfl, hfound]
  exact and_iff_left_of_imp hgreets

end InProcess

end ServletContainer
