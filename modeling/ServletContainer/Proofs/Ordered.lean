import Mathlib.Data.List.Induction
import Mathlib.Data.List.Sort
import ServletContainer.Ordered.Map

/-! What finite maps and sets look like through their members. Keys are compared by a lawful order,
so a map is the look-ups that it answers (`OrdMap.ext_find?`) and a set is its members
(`OrdSet.ext_mem`); `sortBy` puts its list in order, and `keepBest` leaves the first of the best. -/
namespace ServletContainer

section Sorting

variable {α : Type u} {le : α → α → Bool}

theorem sortBy_eq_insertionSort (xs : List α) :
    sortBy le xs = xs.insertionSort fun a b => le a b = true := by
  have hi (x : α) (ys : List α) :
      insertBy le x ys = ys.orderedInsert (fun a b => le a b = true) x := by
    induction ys with
    | nil => rfl
    | cons y ys ih => simp only [insertBy, List.orderedInsert_cons, ih]
  induction xs with
  | nil => rfl
  | cons x xs ih =>
    rw [List.insertionSort_cons, ← ih, ← hi]
    rfl

theorem pairwise_sortBy (htotal : ∀ a b, le a b ∨ le b a)
    (htrans : ∀ a b c, le a b → le b c → le a c) (xs : List α) :
    (sortBy le xs).Pairwise fun a b => le a b = true := by
  have : Std.Total fun a b => le a b = true := ⟨htotal⟩
  have : IsTrans α fun a b => le a b = true := ⟨htrans⟩
  rw [sortBy_eq_insertionSort]
  exact List.pairwise_insertionSort _ xs

theorem sortBy_eq_of_perm (htotal : ∀ a b, le a b ∨ le b a)
    (htrans : ∀ a b c, le a b → le b c → le a c) {xs ys : List α} (h : xs.Perm ys)
    (hanti : ∀ a ∈ xs, ∀ b ∈ xs, le a b → le b a → a = b) : sortBy le xs = sortBy le ys := by
  have hperm : (sortBy le xs).Perm (sortBy le ys) :=
    ((sortBy_perm le xs).trans h).trans (sortBy_perm le ys).symm
  refine hperm.eq_of_pairwise (fun a b ha hb hab hba => ?_) (pairwise_sortBy htotal htrans xs)
    (pairwise_sortBy htotal htrans ys)
  exact hanti a (mem_sortBy.1 ha) b (h.mem_iff.2 (mem_sortBy.1 hb)) hab hba

theorem filter_sortBy (htotal : ∀ a b, le a b ∨ le b a)
    (htrans : ∀ a b c, le a b → le b c → le a c) {xs : List α}
    (hanti : ∀ a ∈ xs, ∀ b ∈ xs, le a b → le b a → a = b) (p : α → Bool) :
    (sortBy le xs).filter p = sortBy le (xs.filter p) := by
  have hperm : ((sortBy le xs).filter p).Perm (sortBy le (xs.filter p)) :=
    ((sortBy_perm le xs).filter p).trans (sortBy_perm le (xs.filter p)).symm
  refine hperm.eq_of_pairwise (fun a b ha hb hab hba => ?_)
    ((pairwise_sortBy htotal htrans xs).filter p) (pairwise_sortBy htotal htrans (xs.filter p))
  exact hanti a (mem_sortBy.1 (List.mem_filter.1 ha).1) b
    (List.mem_filter.1 (mem_sortBy.1 hb)).1 hab hba

theorem sortBy_map {β : Type v} (f : β → α) (xs : List β) :
    sortBy le (xs.map f) = (sortBy (fun a b => le (f a) (f b)) xs).map f := by
  have hinsert (x : β) (ys : List β) :
      insertBy le (f x) (ys.map f) = (insertBy (fun a b => le (f a) (f b)) x ys).map f := by
    induction ys with
    | nil => rfl
    | cons y ys ih =>
      simp only [List.map_cons, insertBy, ih]
      split <;> rfl
  induction xs with
  | nil => rfl
  | cons x xs ih =>
    rw [List.map_cons]
    exact (congrArg (insertBy le (f x)) ih).trans (hinsert x _)

end Sorting

section Pairing

variable {α : Type u} {β : Type v} {R : α → β → Prop} {xs : List α} {ys : List β}

theorem exists_left_of_forall₂ (h : List.Forall₂ R xs ys) {y : β} (hy : y ∈ ys) : ∃ x ∈ xs, R x y := by
  induction h with
  | nil => cases hy
  | @cons x z _ _ hR _ ih =>
    rcases List.mem_cons.1 hy with rfl | hy
    · exact ⟨x, List.mem_cons_self, hR⟩
    · obtain ⟨w, hw, hR⟩ := ih hy
      exact ⟨w, List.mem_cons_of_mem x hw, hR⟩

theorem exists_right_of_forall₂ (h : List.Forall₂ R xs ys) {x : α} (hx : x ∈ xs) : ∃ y ∈ ys, R x y :=
  exists_left_of_forall₂ (R := fun y x => R x y) h.flip hx

end Pairing

section Collecting

variable {α : Type u} [BEq α] [LawfulBEq α] {ks xs : List α} {k : α}

theorem mem_foldl_collect :
    k ∈ xs.foldl (fun ks k => if ks.contains k then ks else k :: ks) ks ↔ k ∈ ks ∨ k ∈ xs := by
  induction xs generalizing ks with
  | nil => simp
  | cons x xs ih =>
    rw [List.foldl_cons, ih, List.mem_cons]
    by_cases hx : x ∈ ks
    · simp only [List.contains_iff_mem, hx, if_true]
      exact ⟨fun h => h.imp_right .inr, fun h => h.elim .inl fun h =>
        h.elim (fun he => .inl (he ▸ hx)) .inr⟩
    · simp only [List.contains_iff_mem, hx, if_false, List.mem_cons]
      tauto

theorem nodup_foldl_collect (h : ks.Nodup) :
    (xs.foldl (fun ks k => if ks.contains k then ks else k :: ks) ks).Nodup := by
  induction xs generalizing ks with
  | nil => exact h
  | cons x xs ih =>
    rw [List.foldl_cons]
    by_cases hx : x ∈ ks
    · simpa only [List.contains_iff_mem, hx, if_true] using ih h
    · simpa only [List.contains_iff_mem, hx, if_false] using ih (List.nodup_cons.2 ⟨hx, h⟩)

end Collecting

section Keeping

variable {α : Type u} {lt : α → α → Bool}

/-- What is kept of those so far and a further one, which has to be better. -/
def keepBest (lt : α → α → Bool) (best : Option α) (a : α) : Option α :=
  match best with
  | none => some a
  | some b => if lt b a then some a else some b

theorem keepBest_ne_none (best : Option α) (a : α) : keepBest lt best a ≠ none := by
  unfold keepBest
  split
  · exact nofun
  · split <;> exact nofun

theorem foldl_keepBest_eq_none {xs : List α} : xs.foldl (keepBest lt) none = none ↔ xs = [] := by
  cases xs using List.reverseRecOn with
  | nil => simp
  | append_singleton xs x => simp [keepBest_ne_none]

theorem mem_of_foldl_keepBest {xs : List α} {a : α} (h : xs.foldl (keepBest lt) none = some a) :
    a ∈ xs := by
  induction xs using List.reverseRecOn generalizing a with
  | nil => cases h
  | append_singleton xs x ih =>
    rw [List.foldl_append, List.foldl_cons, List.foldl_nil] at h
    unfold keepBest at h
    split at h
    · cases h
      exact List.mem_append_right xs (List.mem_singleton_self x)
    · rename_i best hbest
      split at h <;> cases h
      · exact List.mem_append_right xs (List.mem_singleton_self x)
      · exact List.mem_append_left [x] (ih hbest)

theorem exists_of_foldl_keepBest {xs : List α} {a : α} (h : xs.foldl (keepBest lt) none = some a)
    (htrans : ∀ a b c, lt a b → lt b c → lt a c)
    (hnegtrans : ∀ a b c, ¬ lt a b → ¬ lt b c → ¬ lt a c) :
    ∃ as bs, xs = as ++ a :: bs ∧ (∀ b ∈ as, lt b a) ∧ ∀ b ∈ bs, ¬ lt a b := by
  induction xs using List.reverseRecOn generalizing a with
  | nil => cases h
  | append_singleton xs x ih =>
    rw [List.foldl_append, List.foldl_cons, List.foldl_nil] at h
    cases hbest : xs.foldl (keepBest lt) none with
    | none =>
      rw [hbest] at h
      cases h
      rw [foldl_keepBest_eq_none.1 hbest]
      exact ⟨[], [], rfl, by simp, by simp⟩
    | some best =>
      obtain ⟨as, bs, hxs, has, hbs⟩ := ih hbest
      simp only [hbest, keepBest] at h
      split at h
      · rename_i hx
        cases h
        refine ⟨xs, [], rfl, fun b hb => ?_, by simp⟩
        simp only [hxs, List.mem_append, List.mem_cons] at hb
        rcases hb with hb | rfl | hb
        · exact htrans b best x (has b hb) hx
        · exact hx
        · by_contra hnot
          exact hnegtrans best b x (hbs b hb) hnot hx
      · rename_i hx
        cases h
        refine ⟨as, bs ++ [x], by simp [hxs], has, fun b hb => ?_⟩
        rcases List.mem_append.1 hb with hb | hb
        · exact hbs b hb
        · rw [List.mem_singleton.1 hb]
          exact hx

theorem worse_of_foldl_keepBest {xs : List α} {a b : α} (h : xs.foldl (keepBest lt) none = some a)
    (htrans : ∀ a b c, lt a b → lt b c → lt a c)
    (hnegtrans : ∀ a b c, ¬ lt a b → ¬ lt b c → ¬ lt a c) (hb : b ∈ xs) :
    b = a ∨ lt b a ∨ ¬ lt a b := by
  obtain ⟨as, bs, rfl, has, hbs⟩ := exists_of_foldl_keepBest h htrans hnegtrans
  rcases List.mem_append.1 hb with hb | hb
  · exact .inr (.inl (has b hb))
  · exact (List.mem_cons.1 hb).imp_right fun hb => .inr (hbs b hb)

end Keeping

theorem flatMap_eq_filter {α : Type u} {xs : List α} {f : α → List α} {p : α → Bool}
    (h : ∀ x ∈ xs, f x = if p x then [x] else []) : xs.flatMap f = xs.filter p := by
  induction xs with
  | nil => rfl
  | cons x xs ih =>
    obtain ⟨hx, hxs⟩ := List.forall_mem_cons.1 h
    rw [List.flatMap_cons, ih hxs, hx]
    by_cases hp : p x <;> simp [hp]

theorem foldl_eq_self {β : Type u} {γ : Type v} {step : β → γ → β} {b : β} {cs : List γ}
    (h : ∀ c ∈ cs, step b c = b) : cs.foldl step b = b :=
  List.foldlRecOn cs step (motive := (· = b)) rfl fun x hx c hc => by rw [hx, h c hc]

theorem mem_insertAsc [Ord κ] [Std.LawfulEqOrd κ] {x y : κ} {xs : List κ} :
    y ∈ insertAsc id x xs ↔ y = x ∨ y ∈ xs := by
  refine ⟨mem_of_mem_insertAsc, ?_⟩
  induction xs with
  | nil => simp [insertAsc]
  | cons z zs ih =>
    unfold insertAsc
    split
    · simp
    · rename_i he
      have hz : x = z := Std.LawfulEqOrd.eq_of_compare he
      simp [hz]
    · simp only [List.mem_cons]
      rintro (h | h | h)
      · exact .inr (ih (.inl h))
      · exact .inl h
      · exact .inr (ih (.inr h))

namespace OrdMap

variable {κ : Type u} {α : Type v} {β : Type w} [Ord κ] [Std.LawfulEqOrd κ]

omit [Std.LawfulEqOrd κ] in
@[simp] theorem find?_emptyCollection (k : κ) : (∅ : OrdMap κ α).find? k = none := rfl

theorem find?_eq_none_iff {m : OrdMap κ α} {k : κ} :
    m.find? k = none ↔ ∀ e ∈ m.entries, e.1 ≠ k := by
  simp only [find?, Option.map_eq_none_iff, List.find?_eq_none, beq_iff_eq,
    Std.LawfulEqOrd.compare_eq_iff_eq]
  exact ⟨fun h e he hk => h e he hk.symm, fun h e he hk => h e he hk.symm⟩

theorem nodup_keys (m : OrdMap κ α) : m.keys.Nodup := by
  rw [keys, List.nodup_iff_pairwise_ne, List.pairwise_map]
  exact m.ascending.imp fun hlt he => by simp [he] at hlt

theorem mem_entries_of_find? {m : OrdMap κ α} {k : κ} {a : α} (h : m.find? k = some a) :
    (k, a) ∈ m.entries := by
  obtain ⟨⟨l, b⟩, he, rfl⟩ := Option.map_eq_some_iff.1 h
  have hk : k = l := by simpa using List.find?_some he
  subst hk
  exact List.mem_of_find?_eq_some he

theorem mem_entries_iff {m : OrdMap κ α} {k : κ} {a : α} :
    (k, a) ∈ m.entries ↔ m.find? k = some a := by
  refine ⟨fun h => ?_, mem_entries_of_find?⟩
  cases hf : m.find? k with
  | none => exact absurd rfl (find?_eq_none_iff.1 hf _ h)
  | some b =>
    have he : (k, b) = (k, a) :=
      List.inj_on_of_nodup_map m.nodup_keys (mem_entries_of_find? hf) h rfl
    rw [(Prod.mk.inj he).2]

theorem mem_values_iff {m : OrdMap κ α} {a : α} : a ∈ m.values ↔ ∃ k, m.find? k = some a := by
  simp only [values, List.mem_map, Prod.exists, exists_eq_right, mem_entries_iff]

theorem mem_keys_iff {m : OrdMap κ α} {k : κ} : k ∈ m.keys ↔ ∃ a, m.find? k = some a := by
  simp only [keys, List.mem_map, Prod.exists, exists_and_right, exists_eq_right, mem_entries_iff]

theorem mem_keys_filter {m : OrdMap κ α} {p : κ → α → Bool} {k : κ} :
    k ∈ (m.filter p).keys ↔ ∃ a, m.find? k = some a ∧ p k a := by
  simp [filter, keys, mem_entries_iff]

theorem find?_filter (m : OrdMap κ α) (p : κ → α → Bool) (k : κ) :
    (m.filter p).find? k = (m.find? k).filter (p k) := by
  ext a
  rw [← mem_entries_iff, Option.filter_eq_some_iff, ← mem_entries_iff]
  simp [filter]

omit [Std.LawfulEqOrd κ] in
@[simp] theorem keys_mapWithKey (m : OrdMap κ α) (f : κ → α → β) :
    (m.mapWithKey f).keys = m.keys := by
  simp [keys, mapWithKey, Function.comp_def]

theorem find?_mapWithKey (m : OrdMap κ α) (f : κ → α → β) (k : κ) :
    (m.mapWithKey f).find? k = (m.find? k).map (f k) := by
  ext b
  rw [← mem_entries_iff, Option.map_eq_some_iff]
  simp only [mapWithKey, List.mem_map, Prod.exists, Prod.mk.injEq, mem_entries_iff]
  constructor
  · rintro ⟨l, a, h, rfl, rfl⟩
    exact ⟨a, h, rfl⟩
  · rintro ⟨a, h, rfl⟩
    exact ⟨k, a, h, rfl, rfl⟩

/-- Of a fold over what is made of the entries of a map, what is made of one entry is left if nothing
else counts. -/
theorem foldl_filterMap_entries {γ : Type x} {m : OrdMap κ α} {f : κ → α → Option γ}
    {g : β → γ → β} {k : κ}
    (hother : ∀ l a c, m.find? l = some a → f l a = some c → l ≠ k → ∀ b, g b c = b) (b : β) :
    (m.entries.filterMap fun e => f e.1 e.2).foldl g b =
      ((m.find? k).bind (f k)).elim b (g b) := by
  have hnone (es : List (κ × α)) (hes : es ⊆ m.entries) (hk : k ∉ es.map (·.1)) (b : β) :
      (es.filterMap fun e => f e.1 e.2).foldl g b = b := by
    refine foldl_eq_self fun c hc => ?_
    obtain ⟨⟨l, a⟩, he, hf⟩ := List.mem_filterMap.1 hc
    exact hother l a c (mem_entries_iff.1 (hes he)) hf (fun h => hk (h ▸ List.mem_map_of_mem he)) b
  cases ha : m.find? k with
  | none =>
    refine hnone m.entries (fun _ => id) (fun h => ?_) b
    obtain ⟨a, h⟩ := mem_keys_iff.1 h
    cases ha.symm.trans h
  | some a =>
    have hnodup := m.nodup_keys
    obtain ⟨as, bs, hes⟩ := List.append_of_mem (mem_entries_of_find? ha)
    have has : as ⊆ m.entries := hes ▸ List.subset_append_left ..
    have hbs : bs ⊆ m.entries := fun e he => hes ▸ by simp [he]
    simp only [keys, hes, List.map_append, List.map_cons, List.nodup_middle, List.nodup_cons,
      List.mem_append, not_or] at hnodup
    rw [hes, List.filterMap_append, List.foldl_append, hnone as has hnodup.1.1, List.filterMap_cons]
    simp only [Option.bind_some]
    cases f k a with
    | none => exact hnone bs hbs hnodup.1.2 b
    | some c => exact hnone bs hbs hnodup.1.2 (g b c)

variable [Std.TransOrd κ]

theorem ext_find? {m n : OrdMap κ α} (h : ∀ k, m.find? k = n.find? k) : m = n := by
  have : Std.Irrefl fun e f : κ × α => compare e.1 f.1 = .lt := ⟨fun e he => by simp at he⟩
  have : Std.Antisymm fun e f : κ × α => compare e.1 f.1 = .lt :=
    ⟨fun e f he hf => absurd hf (Std.OrientedCmp.not_lt_of_lt he)⟩
  refine ext (List.Pairwise.eq_of_mem_iff m.ascending n.ascending fun ⟨k, a⟩ => ?_)
  rw [mem_entries_iff, mem_entries_iff, h]

variable [DecidableEq κ]

theorem find?_insert_eq (m : OrdMap κ α) (k l : κ) (a : α) :
    (m.insert k a).find? l = if l = k then some a else m.find? l := by
  simp only [find?_insert, Std.LawfulEqOrd.compare_eq_iff_eq]

theorem find?_erase_eq (m : OrdMap κ α) (k l : κ) :
    (m.erase k).find? l = if k = l then none else m.find? l := by
  simp only [find?_erase, Std.LawfulEqOrd.compare_eq_iff_eq]

theorem erase_insert {m : OrdMap κ α} {k : κ} (h : m.find? k = none) (a : α) :
    (m.insert k a).erase k = m := by
  refine ext_find? fun l => ?_
  rw [find?_erase_eq, find?_insert_eq]
  split
  · rename_i hl
    exact hl ▸ h.symm
  · rename_i hl
    rw [if_neg (Ne.symm hl)]

section Inserting

variable {γ : Type x} {m : OrdMap κ α} {cs : List γ} {f : γ → κ} {g : γ → α}

theorem find?_foldl_insert_of_ne {k : κ} (h : ∀ c ∈ cs, f c ≠ k) :
    (cs.foldl (fun m c => m.insert (f c) (g c)) m).find? k = m.find? k :=
  List.foldlRecOn cs _ (motive := fun n : OrdMap κ α => n.find? k = m.find? k) rfl fun n hn c hc => by
    rw [find?_insert_eq, if_neg fun hk => h c hc hk.symm, hn]

theorem find?_foldl_insert_of_mem (hkeys : (cs.map f).Nodup) {c : γ} (hc : c ∈ cs) :
    (cs.foldl (fun m c => m.insert (f c) (g c)) m).find? (f c) = some (g c) := by
  obtain ⟨as, bs, rfl⟩ := List.append_of_mem hc
  simp only [List.map_append, List.map_cons, List.nodup_middle, List.nodup_cons, List.mem_append,
    not_or] at hkeys
  rw [List.foldl_append, List.foldl_cons, find?_foldl_insert_of_ne, find?_insert_eq, if_pos rfl]
  exact fun b hb heq => hkeys.1.2 (heq ▸ List.mem_map_of_mem hb)

end Inserting

omit [Std.TransOrd κ] in
theorem find?_modify (m : OrdMap κ α) (k l : κ) (f : α → α) :
    (m.modify k f).find? l = if k = l then (m.find? l).map f else m.find? l := by
  rw [modify, find?_mapWithKey]
  by_cases h : k = l <;> simp [h]

theorem mapWithKey_insert (m : OrdMap κ α) (f : κ → α → β) (k : κ) (a : α) :
    (m.insert k a).mapWithKey f = (m.mapWithKey f).insert k (f k a) := by
  refine ext_find? fun l => ?_
  simp only [find?_mapWithKey, find?_insert_eq]
  by_cases h : l = k <;> simp [h]

theorem mapWithKey_erase (m : OrdMap κ α) (f : κ → α → β) (k : κ) :
    (m.erase k).mapWithKey f = (m.mapWithKey f).erase k := by
  refine ext_find? fun l => ?_
  simp only [find?_mapWithKey, find?_erase_eq]
  by_cases h : k = l <;> simp [h]

end OrdMap

namespace OrdSet

variable {κ : Type u} [Ord κ]

@[simp] theorem elems_empty : (∅ : OrdSet κ).elems = [] := rfl

theorem nodup_elems [Std.ReflOrd κ] (s : OrdSet κ) : s.elems.Nodup :=
  s.ascending.imp fun {a b} h heq => by
    subst heq
    simp at h

variable [Std.LawfulEqOrd κ]

@[simp] theorem contains_iff {s : OrdSet κ} {k : κ} : s.contains k ↔ k ∈ s.elems := by
  simp [contains]

variable [Std.TransOrd κ]

theorem ext_mem {s t : OrdSet κ} (h : ∀ k, k ∈ s.elems ↔ k ∈ t.elems) : s = t := by
  have : Std.Irrefl fun a b : κ => compare a b = .lt := ⟨fun a ha => by simp at ha⟩
  have : Std.Antisymm fun a b : κ => compare a b = .lt :=
    ⟨fun a b ha hb => absurd hb (Std.OrientedCmp.not_lt_of_lt ha)⟩
  have he : s.elems = t.elems := List.Pairwise.eq_of_mem_iff s.ascending t.ascending h
  cases s
  cases t
  cases he
  rfl

@[simp] theorem mem_insert {s : OrdSet κ} {k l : κ} :
    l ∈ (s.insert k).elems ↔ l = k ∨ l ∈ s.elems :=
  mem_insertAsc

theorem mem_foldl_insert {s : OrdSet κ} {xs : List κ} {k : κ} :
    k ∈ (xs.foldl insert s).elems ↔ k ∈ s.elems ∨ k ∈ xs := by
  induction xs generalizing s with
  | nil => simp
  | cons x xs ih => rw [List.foldl_cons, ih, mem_insert, List.mem_cons, or_assoc, or_left_comm]

@[simp] theorem mem_ofList {xs : List κ} {k : κ} : k ∈ (ofList xs).elems ↔ k ∈ xs := by
  refine mem_foldl_insert.trans ?_
  simp [empty]

@[simp] theorem mem_union {s t : OrdSet κ} {k : κ} :
    k ∈ (s.union t).elems ↔ k ∈ s.elems ∨ k ∈ t.elems :=
  mem_foldl_insert

omit [Std.TransOrd κ] in
@[simp] theorem mem_erase {s : OrdSet κ} {k l : κ} :
    l ∈ (s.erase k).elems ↔ l ∈ s.elems ∧ k ≠ l := by
  simp [erase, filter]

end OrdSet

end ServletContainer
