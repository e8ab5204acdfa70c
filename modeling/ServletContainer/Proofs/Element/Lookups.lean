import ServletContainer.Element.Builder
import ServletContainer.Proofs.Element.Source

/-! Look-ups, one after the other. A source whose instance is shared is asked for one until it gives it, and
from then on nobody is asked any more: every look-up gets that instance and leaves everything as it is
(`Pool.lookups_of_shared`). A supplier that is to be called for every look-up is called as often as that
(`Pool.calls_play`). It makes no difference what else is looked up or registered meanwhile. -/
namespace ServletContainer

/-- What a collaborator of one of the three kinds does. -/
inductive Collaborator where
  | servlet (s : Servlet)
  | filter (f : Filter)
  | listener (l : Listener)
  deriving DecidableEq

def Instance.map (f : α → β) (i : Instance α) : Instance β := ⟨f i.behaviour, i.number⟩

def Memo.map (f : α → β) (m : Memo α) : Memo β := ⟨m.calls, m.shared.map (·.map f)⟩

namespace AnySource

def isShared : AnySource → Bool
  | .servlet s => s.isShared
  | .filter s => s.isShared
  | .listener s => s.isShared

def isPerLookup : AnySource → Bool
  | .servlet s => s.isPerLookup
  | .filter s => s.isPerLookup
  | .listener s => s.isPerLookup

theorem not_isShared {s : AnySource} (h : s.isPerLookup) : s.isShared = false := by
  cases s <;> exact Source.not_isShared h

end AnySource

def Details.source? : Details → Option AnySource
  | .servlet s => some (.servlet s)
  | .filter s _ _ => some (.filter s)
  | .listener s => some (.listener s)
  | _ => none

namespace Pool

def on (p : Pool) (s : AnySource)
    (f : ∀ {α : Type}, Roster α → Source α → Except DispatchError (Instance α) × Roster α) :
    Except DispatchError (Instance Collaborator) × Pool :=
  match s with
  | .servlet s =>
    let (i, r) := f p.servlets s
    (i.map (·.map .servlet), { p with servlets := r })
  | .filter s =>
    let (i, r) := f p.filters s
    (i.map (·.map .filter), { p with filters := r })
  | .listener s =>
    let (i, r) := f p.listeners s
    (i.map (·.map .listener), { p with listeners := r })

def find (p : Pool) (id : ElementId) (s : AnySource) :
    Except DispatchError (Instance Collaborator) × Pool :=
  p.on s fun r s => r.resolve id s

def make (p : Pool) (id : ElementId) (s : AnySource) :
    Except DispatchError (Instance Collaborator) × Pool :=
  p.on s fun r s => r.make id s

def memo (p : Pool) (id : ElementId) : AnySource → Memo Collaborator
  | .servlet _ => (p.servlets.memo id).map .servlet
  | .filter _ => (p.filters.memo id).map .filter
  | .listener _ => (p.listeners.memo id).map .listener

def register (p : Pool) (name : String) : Collaborator → Pool
  | .servlet a => { p with servlets := p.servlets.register name a }
  | .filter a => { p with filters := p.filters.register name a }
  | .listener a => { p with listeners := p.listeners.register name a }

/-- What happens to a pool. -/
inductive Act where
  | find (id : ElementId) (s : AnySource)
  | register (name : String) (c : Collaborator)
  deriving DecidableEq

def act (p : Pool) : Act → Pool
  | .find id s => (p.find id s).2
  | .register name c => p.register name c

def play (p : Pool) (acts : List Act) : Pool := acts.foldl act p

end Pool

/-- A look-up, and the pool that it finds. -/
structure Lookup where
  pool : Pool
  id : ElementId
  source : AnySource
  deriving DecidableEq

namespace Lookup

def result (l : Lookup) : Except DispatchError (Instance Collaborator) := (l.pool.find l.id l.source).1

def left (l : Lookup) : Pool := (l.pool.find l.id l.source).2

/-- The supplier or the class is asked, and nothing is kept but that it was. -/
def Asks (l : Lookup) : Prop := (l.result, l.left) = l.pool.make l.id l.source

/-- The supplier or the class is asked, and the instance is shared from then on. -/
structure Fixes (l : Lookup) (i : Instance Collaborator) : Prop where
  made : (l.pool.make l.id l.source).1 = .ok i
  result : l.result = .ok i
  shared : (l.left.memo l.id l.source).shared = some i

/-- The look-up gets an instance, and nothing is called for it. -/
structure Recalls (l : Lookup) (i : Instance Collaborator) : Prop where
  result : l.result = .ok i
  left : l.left = l.pool

end Lookup

namespace Pool

variable {p : Pool} {id j : ElementId} {s s' : AnySource} {i : Instance Collaborator} {acts : List Act}

def trace (p : Pool) : List Act → List Lookup
  | [] => []
  | .find id s :: acts => ⟨p, id, s⟩ :: (p.find id s).2.trace acts
  | .register name c :: acts => (p.register name c).trace acts

def lookups (p : Pool) (id : ElementId) (acts : List Act) : List Lookup :=
  (p.trace acts).filter (·.id = id)

theorem play_append (p : Pool) (acts more : List Act) : p.play (acts ++ more) = (p.play acts).play more :=
  List.foldl_append

section Find

theorem find_of_shared (hs : s.isShared) (h : (p.memo id s).shared = some i) :
    p.find id s = (.ok i, p) := by
  cases s <;>
    (obtain ⟨made, hmade, rfl⟩ := Option.map_eq_some_iff.1 h
     simp only [find, on, Roster.resolve_of_shared hs hmade]
     rfl)

theorem find_of_not_shared (hs : s.isShared = false) : p.find id s = p.make id s := by
  cases s <;> simp only [find, make, on, Roster.resolve_of_not_shared hs]

theorem find_of_empty (hs : s.isShared) (h : (p.memo id s).shared = none) :
    (p.find id s).1 = (p.make id s).1 ∧
      ∀ e, (p.find id s).1 = .error e → (p.find id s).2 = (p.make id s).2 := by
  cases s <;>
    (simp only [find, make, on, Roster.resolve_of_empty hs (Option.map_eq_none_iff.1 h), Roster.share]
     split <;> rename_i heq <;> simp [heq, Except.map])

theorem shared_find (p : Pool) (id : ElementId) (hs : s.isShared) :
    ((p.find id s).2.memo id s).shared = (p.find id s).1.toOption := by
  have htoOption {α β : Type} (f : α → β) (e : Except DispatchError α) :
      (e.map f).toOption = e.toOption.map f := by cases e <;> rfl
  cases s <;> simp only [find, on, memo, Memo.map, Roster.shared_of_resolve hs, htoOption]

theorem calls_find (hs : s.isPerLookup) :
    ((p.find id s).2.memo id s).calls = (p.memo id s).calls + 1 := by
  rw [find_of_not_shared (AnySource.not_isShared hs)]
  cases s <;> simp only [make, on, memo, Memo.map, Roster.calls_make hs]

theorem memo_find_of_ne (h : j ≠ id) : (p.find j s').2.memo id s = p.memo id s := by
  cases s <;> cases s' <;> simp only [find, on, memo, Roster.memo_resolve_of_ne h.symm]

theorem memo_register (name : String) (c : Collaborator) : (p.register name c).memo id s = p.memo id s := by
  cases s <;> cases c <;> rfl

end Find

section Trace

/-- All look-ups for the element are of the same source. -/
def LooksFor (id : ElementId) (s : AnySource) (acts : List Act) : Prop :=
  ∀ s', .find id s' ∈ acts → s' = s

theorem looksFor_nil : LooksFor id s [] := fun _ hs' => by cases hs'

/-- Whatever happens to a pool is a look-up of the source, or it makes no difference to what is remembered
for that source. -/
@[elab_as_elim]
theorem lookups_induction {motive : Pool → List Act → Prop} (h : LooksFor id s acts)
    (nil : ∀ p, motive p [])
    (other : ∀ p a acts, (p.act a).memo id s = p.memo id s →
      p.lookups id (a :: acts) = (p.act a).lookups id acts → motive (p.act a) acts → motive p (a :: acts))
    (own : ∀ p acts, LooksFor id s acts →
      p.lookups id (.find id s :: acts) = ⟨p, id, s⟩ :: (p.find id s).2.lookups id acts →
      motive (p.find id s).2 acts → motive p (.find id s :: acts)) (p : Pool) : motive p acts := by
  induction acts generalizing p with
  | nil => exact nil p
  | cons a acts ih =>
    have hacts : LooksFor id s acts := fun s' hs' => h s' (List.mem_cons_of_mem a hs')
    cases a with
    | register name c => exact other p _ acts (memo_register name c) rfl (ih hacts _)
    | find j s' =>
      by_cases hj : j = id
      · subst hj
        obtain rfl := h s' List.mem_cons_self
        exact own p acts hacts (List.filter_cons_of_pos (by simp)) (ih hacts _)
      · exact other p _ acts (memo_find_of_ne hj) (List.filter_cons_of_neg (by simpa using hj)) (ih hacts _)

theorem source_of_mem_lookups (h : LooksFor id s acts) (p : Pool) :
    ∀ l ∈ p.lookups id acts, l.id = id ∧ l.source = s := by
  refine lookups_induction h (fun _ => nofun) (fun p a acts _ heq ih => ?_) (fun p acts _ heq ih => ?_) p <;> rw [heq]
  · exact ih
  · exact List.forall_mem_cons.2 ⟨⟨rfl, rfl⟩, ih⟩

theorem recalls_of_shared (hs : s.isShared) (h : LooksFor id s acts) (p : Pool) :
    (p.memo id s).shared = some i → ∀ l ∈ p.lookups id acts, l.Recalls i := by
  refine lookups_induction h (fun _ _ => nofun) (fun p a acts hmemo heq ih hshared => ?_)
    (fun p acts _ heq ih hshared => ?_) p
  · rw [heq]
    exact ih (hmemo ▸ hshared)
  · have hfind := find_of_shared hs hshared
    rw [hfind] at heq ih
    rw [heq]
    refine List.forall_mem_cons.2 ⟨⟨?_, ?_⟩, ih hshared⟩
    · rw [Lookup.result, hfind]
    · rw [Lookup.left, hfind]

/-- The source is asked in each look-up up to the first that succeeds, and its instance is shared by all
after it. -/
theorem lookups_of_shared (hs : s.isShared) (h : LooksFor id s acts) (p : Pool) :
    (p.memo id s).shared = none → ∃ failed made, p.lookups id acts = failed ++ made ∧
      (∀ l ∈ failed, l.Asks ∧ ∃ e, l.result = .error e) ∧
      ∀ first rest, made = first :: rest → ∃ i, first.Fixes i ∧ ∀ l ∈ rest, l.Recalls i := by
  refine lookups_induction h (fun _ _ => ⟨[], [], rfl, nofun, nofun⟩)
    (fun p a acts hmemo heq ih hempty => ?_) (fun p acts hacts heq ih hempty => ?_) p
  · rw [heq]
    exact ih (hmemo ▸ hempty)
  · obtain ⟨hasks, hfails⟩ := find_of_empty hs hempty
    have hshared := shared_find p id hs
    rw [heq]
    cases hresult : (p.find id s).1 with
    | error e =>
      rw [hresult] at hshared
      obtain ⟨failed, made, heq, hfailed, hmade⟩ := ih hshared
      refine ⟨⟨p, id, s⟩ :: failed, made, by rw [heq]; rfl, ?_, hmade⟩
      exact List.forall_mem_cons.2 ⟨⟨Prod.ext hasks (hfails e hresult), e, hresult⟩, hfailed⟩
    | ok i =>
      rw [hresult] at hshared
      refine ⟨[], _, rfl, nofun, fun first rest heq => ?_⟩
      obtain ⟨rfl, rfl⟩ := List.cons.inj heq
      exact ⟨i, ⟨hasks.symm.trans hresult, hresult, hshared⟩, recalls_of_shared hs hacts _ hshared⟩

theorem asks_of_not_shared (hs : s.isShared = false) (h : LooksFor id s acts) (p : Pool) :
    ∀ l ∈ p.lookups id acts, l.Asks := by
  intro l hl
  obtain ⟨hid, hsource⟩ := source_of_mem_lookups h p l hl
  exact find_of_not_shared (by rw [hsource, hs])

/-- A supplier that is not shared is called once for each look-up. -/
theorem calls_play (hs : s.isPerLookup) (h : LooksFor id s acts) (p : Pool) :
    ((p.play acts).memo id s).calls = (p.memo id s).calls + (p.lookups id acts).length := by
  refine lookups_induction h (fun _ => rfl)
    (fun p a acts hmemo heq ih => ?_) (fun p acts _ heq ih => ?_) p
  · rw [heq, ← hmemo]
    exact ih
  · rw [heq, List.length_cons, ← Nat.add_assoc, Nat.add_right_comm, ← calls_find hs]
    exact ih

end Trace

end Pool

end ServletContainer
