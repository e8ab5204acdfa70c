import ServletContainer.Element.Source
import ServletContainer.Proofs.Ordered

/-! Where instances come from. A look-up finds what is shared or asks the source (`Roster.resolve_cases`). It
counts calls and remembers instances, but which classes are registered, and for what, stays as it was
(`Pool.Consults`). Whether it succeeds can be told beforehand (`Roster.toBool_resolve`), and if it does, it
makes no difference to other look-ups (`Roster.provides_resolve`). -/
namespace ServletContainer

def Roster.SameClasses (r r' : Roster α) : Prop :=
  ∀ name, (r'.classes.find? name).map (·.behaviour) = (r.classes.find? name).map (·.behaviour)

/-- Nothing happened to the pool but that listeners were asked for. -/
structure Pool.Consults (p q : Pool) : Prop where
  eq : q = { p with listeners := q.listeners }
  classes : p.listeners.SameClasses q.listeners

def Source.isShared : Source α → Bool
  | .classRef _ => true
  | .supplier .singleton .. => true
  | _ => false

def Source.isPerLookup : Source α → Bool
  | .supplier .perLookup .. => true
  | _ => false

theorem Source.not_isShared {s : Source α} (h : s.isPerLookup) : s.isShared = false := by
  cases s with
  | supplier scope => cases scope with
    | perLookup => rfl
    | singleton => cases h
  | _ => cases h

def Source.made (shared : Option α) (classes : String → Option α) : Source α → Option α
  | .given a => some a
  | .supplier .perLookup a .. => some a
  | .supplier .singleton a .. => some (shared.getD a)
  | .classRef name => shared.or (classes name)

section Made

variable {s : Source α} (classes : String → Option α)

theorem Source.made_of_shared (hs : s.isShared) (a : α) : s.made (some a) classes = some a := by
  cases s with
  | supplier scope => cases scope with
    | perLookup => cases hs
    | singleton => rfl
  | given => cases hs
  | classRef => rfl

theorem Source.made_of_not_shared (hs : s.isShared = false) (shared : Option α) :
    s.made shared classes = s.made none classes := by
  cases s with
  | supplier scope => cases scope with
    | perLookup => rfl
    | singleton => cases hs
  | given => rfl
  | classRef => cases hs

end Made

namespace Roster

def make (r : Roster α) (key : Nat) : Source α → Except DispatchError (Instance α) × Roster α
  | .given a => (.ok ⟨a, 1⟩, r)
  | .supplier _ a failures failure => r.call key a failures failure
  | .classRef name =>
    match r.classes.find? name with
    | none => (.error (.instantiation name "class is not registered"), r)
    | some c =>
      (.ok ⟨c.behaviour, c.calls + 1⟩,
        { r with classes := r.classes.insert name { c with calls := c.calls + 1 } })

theorem SameClasses.hasClass {r r' : Roster α} (h : r.SameClasses r') (name : String) :
    r'.hasClass name = r.hasClass name := by
  have h := congrArg Option.isSome (h name)
  rwa [Option.isSome_map, Option.isSome_map] at h

theorem sameClasses_call (r : Roster α) (key : Nat) (a : α) (failures : Nat) (failure : String) :
    r.SameClasses (r.call key a failures failure).2 := by
  simp only [call]
  split <;> exact fun _ => rfl

theorem sameClasses_share (r : Roster α) (key : Nat)
    {result : Except DispatchError (Instance α) × Roster α} (h : r.SameClasses result.2) :
    r.SameClasses (share key result).2 := by
  unfold share
  split <;> exact h

section Resolving

variable {r : Roster α} {key other : Nat} {s : Source α} {i : Instance α}

theorem sameClasses_make (r : Roster α) (key : Nat) (s : Source α) : r.SameClasses (r.make key s).2 := by
  cases s with
  | given a => exact fun _ => rfl
  | supplier scope a failures failure => exact r.sameClasses_call key a failures failure
  | classRef name =>
    simp only [make]
    split
    · exact fun _ => rfl
    · rename_i c hc
      intro other
      rw [OrdMap.find?_insert_eq]
      split
      · rename_i heq
        rw [heq, hc]
        rfl
      · rfl

theorem memo_setMemo (r : Roster α) (key other : Nat) (m : Memo α) :
    (r.setMemo key m).memo other = if other = key then m else r.memo other := by
  unfold setMemo memo
  rw [OrdMap.find?_insert_eq]
  split <;> rfl

theorem memo_call (a : α) (failures : Nat) (failure : String) :
    (r.call key a failures failure).2.memo other =
      if other = key then { r.memo key with calls := (r.memo key).calls + 1 } else r.memo other := by
  simp only [call]
  split <;> exact r.memo_setMemo ..

theorem memo_make_of_ne (h : other ≠ key) : (r.make key s).2.memo other = r.memo other := by
  cases s with
  | given => rfl
  | supplier => rw [make, memo_call, if_neg h]
  | classRef name =>
    simp only [make]
    split <;> rfl

theorem shared_make (r : Roster α) (key : Nat) (s : Source α) :
    ((r.make key s).2.memo key).shared = (r.memo key).shared := by
  cases s with
  | given => rfl
  | supplier =>
    rw [make, memo_call, if_pos rfl]
  | classRef name =>
    simp only [make]
    split <;> rfl

theorem calls_make (hs : s.isPerLookup) :
    ((r.make key s).2.memo key).calls = (r.memo key).calls + 1 := by
  cases s with
  | supplier scope =>
    rw [make, memo_call, if_pos rfl]
  | _ => cases hs

theorem resolve_of_shared (hs : s.isShared) (h : (r.memo key).shared = some i) :
    r.resolve key s = (.ok i, r) := by
  unfold resolve
  split
  · cases hs
  · cases hs
  · rw [h]
  · rw [h]

theorem resolve_of_empty (hs : s.isShared) (h : (r.memo key).shared = none) :
    r.resolve key s = share key (r.make key s) := by
  unfold resolve
  split
  · cases hs
  · cases hs
  · rw [h]
    rfl
  · rename_i name
    rw [h, make]
    cases r.classes.find? name <;> rfl

theorem resolve_of_not_shared (hs : s.isShared = false) : r.resolve key s = r.make key s := by
  unfold resolve
  split
  · rfl
  · rfl
  · cases hs
  · cases hs

theorem resolve_cases (r : Roster α) (key : Nat) (s : Source α) :
    (∃ i, s.isShared ∧ (r.memo key).shared = some i ∧ r.resolve key s = (.ok i, r)) ∨
    (s.isShared ∧ (r.memo key).shared = none ∧ r.resolve key s = share key (r.make key s)) ∨
    s.isShared = false ∧ r.resolve key s = r.make key s := by
  by_cases hs : s.isShared
  · cases hshared : (r.memo key).shared with
    | some i => exact .inl ⟨i, hs, rfl, resolve_of_shared hs hshared⟩
    | none => exact .inr (.inl ⟨hs, rfl, resolve_of_empty hs hshared⟩)
  · rw [Bool.not_eq_true] at hs
    exact .inr (.inr ⟨hs, resolve_of_not_shared hs⟩)

theorem sameClasses_resolve (r : Roster α) (key : Nat) (s : Source α) :
    r.SameClasses (r.resolve key s).2 := by
  have hmake := r.sameClasses_make key s
  obtain ⟨_, _, _, h⟩ | ⟨_, _, h⟩ | ⟨_, h⟩ := r.resolve_cases key s <;> rw [h]
  · exact fun _ => rfl
  · exact r.sameClasses_share key hmake
  · exact hmake

theorem memo_share (h : other ≠ key) (result : Except DispatchError (Instance α) × Roster α) :
    (share key result).2.memo other = result.2.memo other := by
  unfold share
  split
  · rw [memo_setMemo, if_neg h]
  · rfl

theorem memo_resolve_of_ne (h : other ≠ key) : (r.resolve key s).2.memo other = r.memo other := by
  obtain ⟨_, _, _, hr⟩ | ⟨_, _, hr⟩ | ⟨_, hr⟩ := r.resolve_cases key s <;> rw [hr]
  · rw [memo_share h, memo_make_of_ne h]
  · exact memo_make_of_ne h

theorem shared_resolve (r : Roster α) (key : Nat) (s : Source α) :
    ((r.resolve key s).2.memo key).shared =
      if s.isShared then (r.resolve key s).1.toOption else (r.memo key).shared := by
  obtain ⟨_, hs, hshared, h⟩ | ⟨hs, hshared, h⟩ | ⟨hs, h⟩ := r.resolve_cases key s <;> rw [h, hs]
  · exact hshared
  · have hmake := (r.shared_make key s).trans hshared
    rcases hmade : r.make key s with ⟨e | i, r'⟩ <;> rw [hmade] at hmake
    · exact hmake
    · rw [share, memo_setMemo, if_pos rfl]
      rfl
  · exact r.shared_make key s

theorem shared_of_resolve (hs : s.isShared) :
    ((r.resolve key s).2.memo key).shared = (r.resolve key s).1.toOption := by
  rw [shared_resolve, if_pos hs]

end Resolving

section Providing

variable {r : Roster α} {key other : Nat} {s : Source α}

/-- Whether a look-up of the source succeeds: not if its supplier is still to fail, or its class is not
registered and none of its instances is shared. -/
def provides (r : Roster α) (key : Nat) : Source α → Bool
  | .given _ => true
  | .supplier .perLookup _ failures _ => failures ≤ (r.memo key).calls
  | .supplier .singleton _ failures _ =>
    (r.memo key).shared.isSome || failures ≤ (r.memo key).calls
  | .classRef name => (r.memo key).shared.isSome || r.hasClass name

theorem toBool_call (r : Roster α) (key : Nat) (a : α) (failures : Nat) (failure : String) :
    (r.call key a failures failure).1.toBool = decide (failures ≤ (r.memo key).calls) := by
  simp only [call]
  split <;> simp_all [Except.toBool]

theorem toBool_share (key : Nat) (result : Except DispatchError (Instance α) × Roster α) :
    (share key result).1.toBool = result.1.toBool := by
  unfold share
  split <;> rfl

theorem toBool_resolve (r : Roster α) (key : Nat) (s : Source α) :
    (r.resolve key s).1.toBool = r.provides key s := by
  unfold resolve provides
  split
  · rfl
  · exact r.toBool_call key _ _ _
  · split <;> rename_i hshared <;> rw [hshared]
    · rfl
    · rw [toBool_share, toBool_call]
      rfl
  · split <;> rename_i hshared <;> rw [hshared]
    · rfl
    · split <;> rename_i hclass
      · simp [hasClass, OrdMap.contains, hclass, Except.toBool]
      · rw [toBool_share]
        simp [hasClass, OrdMap.contains, hclass, Except.toBool]

theorem provides_of_shared (hs : s.isShared) (h : (r.memo key).shared.isSome) : r.provides key s := by
  cases s with
  | given => rfl
  | supplier scope => cases scope with
    | perLookup => cases hs
    | singleton => simp only [provides, h, Bool.true_or]
  | classRef => simp only [provides, h, Bool.true_or]

theorem provides_again (h : r.provides key s) : (r.resolve key s).2.provides key s := by
  obtain ⟨_, _, _, hr⟩ | ⟨hs, _, _⟩ | ⟨hs, hr⟩ := r.resolve_cases key s
  · rwa [hr]
  · refine provides_of_shared hs ?_
    rw [shared_of_resolve hs]
    rw [← toBool_resolve] at h
    cases hi : (r.resolve key s).1 with
    | error e =>
      rw [hi] at h
      cases h
    | ok i => rfl
  · rw [hr]
    cases s with
    | given => rfl
    | supplier scope => cases scope with
      | perLookup =>
        simp only [provides, decide_eq_true_eq] at h ⊢
        rw [calls_make rfl]
        exact h.trans (Nat.le_succ _)
      | singleton => cases hs
    | classRef => cases hs

/-- A look-up that succeeds makes no difference to others. -/
theorem provides_resolve {s' : Source α} (h : r.provides key s) (hsame : other = key → s' = s) :
    (r.resolve key s).2.provides other s' = r.provides other s' := by
  -- a look-up touches no memo but its own, and that one only to its advantage
  by_cases hkey : other = key
  · rw [hkey, hsame hkey, provides_again h, h]
  · have hmemo := memo_resolve_of_ne (s := s) (r := r) hkey
    have hclass := (r.sameClasses_resolve key s).hasClass
    unfold provides
    simp only [hmemo, hclass]

section Offering

variable {a : α} {i : Instance α} {s' : Source α}

/-- What a look-up of the source gives if it succeeds. -/
def offer (r : Roster α) (key : Nat) (s : Source α) : Option α :=
  s.made ((r.memo key).shared.map (·.behaviour)) fun name =>
    (r.classes.find? name).map (·.behaviour)

theorem offer_of_call {failures : Nat} {failure : String}
    (h : (r.call key a failures failure).1 = .ok i) : i.behaviour = a := by
  simp only [call] at h
  split at h <;> cases h
  rfl

theorem fst_share (key : Nat) (result : Except DispatchError (Instance α) × Roster α) :
    (share key result).1 = result.1 := by
  unfold share
  split <;> rfl

theorem made_of_make (h : (r.make key s).1 = .ok i) :
    s.made none (fun name => (r.classes.find? name).map (·.behaviour)) = some i.behaviour := by
  cases s with
  | given =>
    cases h
    rfl
  | supplier scope =>
    rw [make] at h
    cases scope <;> rw [offer_of_call h] <;> rfl
  | classRef name =>
    simp only [make] at h
    split at h <;> rename_i hclass <;> cases h
    simp only [Source.made, hclass, Option.none_or, Option.map_some]

theorem offer_of_resolve (h : (r.resolve key s).1 = .ok i) : r.offer key s = some i.behaviour := by
  rw [offer]
  obtain ⟨_, hs, hshared, hr⟩ | ⟨_, hshared, hr⟩ | ⟨hs, hr⟩ := r.resolve_cases key s <;> rw [hr] at h
  · cases h
    rw [hshared, Option.map_some, Source.made_of_shared _ hs]
  · rw [fst_share] at h
    rw [hshared, Option.map_none, made_of_make h]
  · rw [Source.made_of_not_shared _ hs, made_of_make h]

theorem offer_resolve (h : (r.resolve key s).2.offer other s' = some a) :
    r.offer other s' = some a ∨ other = key ∧ r.offer key s = some a := by
  have hclasses := funext (r.sameClasses_resolve key s)
  rw [offer, hclasses] at h
  by_cases hkey : other = key
  · subst hkey
    rw [shared_resolve] at h
    by_cases hs : s.isShared
    · rw [if_pos hs] at h
      cases hi : (r.resolve other s).1 with
      | error e =>
        have hnone : (r.memo other).shared = none := by
          by_contra hsome
          obtain ⟨i, hshared⟩ := Option.ne_none_iff_exists'.1 hsome
          cases hi.symm.trans (congrArg Prod.fst (resolve_of_shared hs hshared))
        rw [hi] at h
        refine .inl ?_
        rw [offer, hnone]
        exact h
      | ok i =>
        rw [hi] at h
        by_cases hs' : s'.isShared
        · cases (Source.made_of_shared _ hs' _).symm.trans h
          exact .inr ⟨rfl, offer_of_resolve hi⟩
        · rw [Bool.not_eq_true] at hs'
          rw [offer, Source.made_of_not_shared _ hs']
          exact .inl ((Source.made_of_not_shared _ hs' _).symm.trans h)
    · rw [if_neg hs] at h
      exact .inl h
  · rw [memo_resolve_of_ne hkey] at h
    exact .inl h

end Offering

end Providing

end Roster

namespace Pool

variable {p q r : Pool}

@[refl] theorem Consults.refl (p : Pool) : p.Consults p := ⟨rfl, fun _ => rfl⟩

theorem Consults.trans (h : p.Consults q) (h' : q.Consults r) : p.Consults r where
  eq := by rw [h'.eq, h.eq]
  classes name := (h'.classes name).trans (h.classes name)

theorem consults_listener (p : Pool) (key : Nat) (s : Source Listener) :
    p.Consults (p.listener key s).2 :=
  ⟨rfl, p.listeners.sameClasses_resolve key s⟩

end Pool

end ServletContainer
