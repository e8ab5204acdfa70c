import ServletContainer.Ordered.Sort

/-! Finite maps kept as their entries in ascending key order, so that equal maps are equal values
and every listing comes in key order. `find?_insert` and `find?_erase` say what a look-up sees
after a write. -/
namespace ServletContainer

/-- A finite map: its entries in ascending key order, each key once. -/
structure OrdMap (κ : Type u) (α : Type v) [Ord κ] where
  entries : List (κ × α)
  ascending : entries.Pairwise fun a b => compare a.1 b.1 = .lt
  deriving DecidableEq

namespace OrdMap

variable {κ : Type u} {α : Type v} {β : Type w} [Ord κ]

def empty : OrdMap κ α := ⟨[], .nil⟩

instance : EmptyCollection (OrdMap κ α) := ⟨empty⟩

instance : Inhabited (OrdMap κ α) := ⟨empty⟩

def isEmpty (m : OrdMap κ α) : Bool := m.entries.isEmpty

def size (m : OrdMap κ α) : Nat := m.entries.length

def keys (m : OrdMap κ α) : List κ := m.entries.map (·.1)

def values (m : OrdMap κ α) : List α := m.entries.map (·.2)

def find? (m : OrdMap κ α) (k : κ) : Option α :=
  (m.entries.find? fun e => compare k e.1 == .eq).map (·.2)

def contains (m : OrdMap κ α) (k : κ) : Bool := (m.find? k).isSome

def insert [Std.TransOrd κ] (m : OrdMap κ α) (k : κ) (a : α) : OrdMap κ α :=
  ⟨insertAsc (·.1) (k, a) m.entries, pairwise_insertAsc _ m.ascending⟩

def filter (m : OrdMap κ α) (p : κ → α → Bool) : OrdMap κ α :=
  ⟨m.entries.filter fun e => p e.1 e.2, m.ascending.filter _⟩

def erase (m : OrdMap κ α) (k : κ) : OrdMap κ α :=
  m.filter fun k' _ => compare k k' != .eq

def mapWithKey (m : OrdMap κ α) (f : κ → α → β) : OrdMap κ β :=
  ⟨m.entries.map fun e => (e.1, f e.1 e.2), m.ascending.map _ fun _ _ h => h⟩

def modify (m : OrdMap κ α) (k : κ) (f : α → α) : OrdMap κ α :=
  m.mapWithKey fun k' a => if compare k k' == .eq then f a else a

def ofList [Std.TransOrd κ] (xs : List (κ × α)) : OrdMap κ α :=
  xs.foldl (fun m e => m.insert e.1 e.2) empty

@[simp] theorem find?_empty (k : κ) : (empty : OrdMap κ α).find? k = none := rfl

@[ext] theorem ext {m n : OrdMap κ α} (h : m.entries = n.entries) : m = n := by
  cases m; cases n; cases h; rfl

theorem find?_insert [Std.TransOrd κ] (m : OrdMap κ α) (k l : κ) (a : α) :
    (m.insert k a).find? l = if compare l k = .eq then some a else m.find? l := by
  obtain ⟨es, hes⟩ := m
  simp only [find?, insert]
  induction es with
  | nil => by_cases h : compare l k = .eq <;> simp [insertAsc, h]
  | cons e es ih =>
    specialize ih (List.pairwise_cons.1 hes).2
    unfold insertAsc
    split
    · by_cases h : compare l k = .eq <;> simp [List.find?_cons, h]
    · rename_i hk
      have hc : compare l k = compare l e.1 := Std.TransCmp.congr_right hk
      by_cases h : compare l k = .eq
      · simp [h]
      · simp [h, ← hc]
    · rename_i hk
      by_cases he : compare l e.1 = .eq
      · have : compare l k ≠ .eq := fun h => by
          have h1 : compare k e.1 = compare l e.1 :=
            Std.TransCmp.congr_left (Std.OrientedCmp.eq_symm h)
          simp [he, hk] at h1
        simp [he, this]
      · simp_all

theorem find?_erase [Std.TransOrd κ] (m : OrdMap κ α) (k l : κ) :
    (m.erase k).find? l = if compare k l = .eq then none else m.find? l := by
  obtain ⟨es, hes⟩ := m
  simp only [find?, erase, filter]
  clear hes
  induction es with
  | nil => simp
  | cons e es ih =>
    by_cases he : compare l e.1 = .eq
    · have hc : compare k l = compare k e.1 := Std.TransCmp.congr_right he
      by_cases hk : compare k e.1 = .eq
      · simp only [hc, hk, if_pos] at ih ⊢
        simpa [he, hk] using ih
      · simp [he, hk, hc]
    · by_cases hk : compare k e.1 = .eq <;> simp_all

end OrdMap

/-- A finite set: its members in ascending order, each once. -/
structure OrdSet (κ : Type u) [Ord κ] where
  elems : List κ
  ascending : elems.Pairwise fun a b => compare a b = .lt
  deriving DecidableEq

namespace OrdSet

variable {κ : Type u} [Ord κ]

def empty : OrdSet κ := ⟨[], .nil⟩

instance : EmptyCollection (OrdSet κ) := ⟨empty⟩

instance : Inhabited (OrdSet κ) := ⟨empty⟩

def isEmpty (s : OrdSet κ) : Bool := s.elems.isEmpty

def contains (s : OrdSet κ) (k : κ) : Bool := s.elems.any fun x => compare k x == .eq

def insert [Std.TransOrd κ] (s : OrdSet κ) (k : κ) : OrdSet κ :=
  ⟨insertAsc id k s.elems, pairwise_insertAsc _ s.ascending⟩

def filter (s : OrdSet κ) (p : κ → Bool) : OrdSet κ :=
  ⟨s.elems.filter p, s.ascending.filter _⟩

def erase (s : OrdSet κ) (k : κ) : OrdSet κ := s.filter fun x => compare k x != .eq

def ofList [Std.TransOrd κ] (xs : List κ) : OrdSet κ := xs.foldl insert empty

def union [Std.TransOrd κ] (s t : OrdSet κ) : OrdSet κ := t.elems.foldl insert s

end OrdSet

end ServletContainer
