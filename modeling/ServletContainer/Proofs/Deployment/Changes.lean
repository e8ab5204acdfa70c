import ServletContainer.Deployment.Effect
import ServletContainer.Proofs.Ordered

/-! What changes do to a deployment. A valid change leads to one deployment (`leads_of_apply`), and a
batch carries on what each of its changes preserves (`Becomes.preserves`). What a batch has added is
enabled nowhere yet (`Becomes.enabledIn`); where elements are enabled has no influence on what the
changes do (`apply_blank`). -/
namespace ServletContainer

theorem exists_of_map_ok {ε : Type u} {α : Type v} {β : Type w} {x : Except ε α} {f : α → β} {b : β}
    (h : x.map f = .ok b) : ∃ a, x = .ok a ∧ f a = b := by
  cases x with
  | error e => cases h
  | ok a =>
    cases h
    exact ⟨a, rfl, rfl⟩

theorem map_eq_error_iff {ε : Type u} {α : Type v} {β : Type w} {x : Except ε α} {f : α → β} {e : ε} :
    x.map f = .error e ↔ x = .error e := by
  cases x <;> simp [Except.map]

theorem exists_of_toBool {ε : Type u} {α : Type v} {β : Type w} {x : Except ε α × β}
    (h : x.1.toBool) : ∃ a, x = (.ok a, x.2) := by
  obtain ⟨r, b⟩ := x
  cases r with
  | error e => cases h
  | ok a => exact ⟨a, rfl⟩

namespace Deployment

variable {d d' : Deployment} {c : Change} {cs : List Change} {id : ElementId} {s : Deployed}

def contextsAfter (d : Deployment) (c : Change) : Except ValidationError Contexts :=
  match c with
  | .addPhysical p => .ok (d.contexts.pin p)
  | .removePhysical p => d.contexts.removePhysical p
  | .addContext c => d.contexts.bind c
  | .removeContext id => (d.contexts.unbind id).map (·.2)
  | .updateRank id rank => d.contexts.updateRank id rank
  | _ => .ok d.contexts

/-- What becomes of the entry for an element in a change that is valid. -/
def entryAfter (d : Deployment) (c : Change) (id : ElementId) : Option Deployed :=
  match c with
  | .addElement e => if id = e.id then some { element := e } else d.elements.find? id
  | .removeElement j => if j = id then none else d.elements.find? id
  | .retarget j ts =>
    if j = id then
      (d.elements.find? id).map fun s =>
        { s with element := s.element.withTargets ts d.nextCopy }
    else d.elements.find? id
  | _ => d.elements.find? id

/-- What a valid change leads to. -/
structure Leads (d : Deployment) (c : Change) (d' : Deployment) : Prop where
  policy : d'.policy = d.policy
  defaultContext : d'.defaultContext = d.defaultContext
  contexts : d.contextsAfter c = .ok d'.contexts
  elements : ∀ id, d'.elements.find? id = d.entryAfter c id

theorem addElement_ok {e : Element} (h : d.addElement e = .ok d') :
    d.elements.find? e.id = none ∧
      d' = { d with elements := d.elements.insert e.id { element := e },
                    nextCopy := max d.nextCopy (e.copy + 1) } := by
  unfold addElement at h
  split at h
  · cases h
  · rename_i hc
    obtain ⟨_, _, rfl⟩ := exists_of_map_ok h
    exact ⟨by simpa [OrdMap.contains] using hc, rfl⟩

theorem retarget_ok {ts : List ContextId} (h : d.retarget id ts = .ok d') :
    ∃ s, d.elements.find? id = some s ∧
      d' = prune { d with
        elements := d.elements.insert id { s with element := s.element.withTargets ts d.nextCopy }
        nextCopy := d.nextCopy + 1 } := by
  unfold retarget at h
  split at h
  · cases h
  · split at h
    · cases h
    · rename_i s hs
      cases h
      exact ⟨s, hs, rfl⟩

theorem removeElement_ok (h : d.apply (.removeElement id) = .ok d') :
    (∃ s, d.elements.find? id = some s) ∧
      d' = prune { d with elements := d.elements.erase id } := by
  simp only [apply] at h
  split at h
  · rename_i hc
    cases h
    exact ⟨Option.isSome_iff_exists.1 hc, rfl⟩
  · cases h

theorem leads_of_apply (h : d.apply c = .ok d') : d.Leads c d' := by
  cases c with
  | addPhysical p =>
    cases h
    exact ⟨rfl, rfl, rfl, fun _ => rfl⟩
  | removePhysical p =>
    obtain ⟨cs, hcs, rfl⟩ := exists_of_map_ok h
    exact ⟨rfl, rfl, hcs, fun _ => rfl⟩
  | addContext c =>
    obtain ⟨cs, hcs, rfl⟩ := exists_of_map_ok h
    exact ⟨rfl, rfl, hcs, fun _ => rfl⟩
  | removeContext j =>
    obtain ⟨⟨c, cs⟩, hcs, rfl⟩ := exists_of_map_ok h
    have hc : d.contextsAfter (.removeContext j) = .ok cs := by rw [contextsAfter, hcs]; rfl
    exact ⟨rfl, rfl, hc, fun _ => rfl⟩
  | updateRank j rank =>
    obtain ⟨cs, hcs, rfl⟩ := exists_of_map_ok h
    exact ⟨rfl, rfl, hcs, fun _ => rfl⟩
  | addElement e =>
    obtain ⟨_, rfl⟩ := addElement_ok h
    exact ⟨rfl, rfl, rfl, fun _ => OrdMap.find?_insert_eq ..⟩
  | removeElement j =>
    obtain ⟨_, rfl⟩ := removeElement_ok h
    exact ⟨rfl, rfl, rfl, fun _ => OrdMap.find?_erase_eq ..⟩
  | retarget j ts =>
    obtain ⟨s, hs, rfl⟩ := retarget_ok h
    refine ⟨rfl, rfl, rfl, fun id => ?_⟩
    have hi := d.elements.find?_insert_eq j id
      { s with element := s.element.withTargets ts d.nextCopy }
    by_cases hj : j = id
    · subst hj
      simpa [prune, entryAfter, hs] using hi
    · simpa [prune, entryAfter, hj, Ne.symm hj] using hi
  | refreshFilters p =>
    simp only [apply] at h
    split at h
    · cases h
      exact ⟨rfl, rfl, rfl, fun _ => rfl⟩
    · cases h

/-- Of what is deployed after a change, the change itself added the element, or it was deployed
before and is enabled where it was. -/
theorem entryAfter_some (h : d.entryAfter c id = some s) :
    (c = .addElement s.element ∧ s.element.id = id ∧ s.enabledIn = ∅) ∨
      (∀ e, c = .addElement e → e.id ≠ id) ∧
        ∃ t, d.elements.find? id = some t ∧ s.element.id = t.element.id ∧
          s.enabledIn = t.enabledIn := by
  cases c with
  | addElement e =>
    simp only [entryAfter] at h
    split at h
    · rename_i he
      cases h
      exact .inl ⟨rfl, he.symm, rfl⟩
    · rename_i he
      refine .inr ⟨fun f hf => ?_, s, h, rfl, rfl⟩
      cases hf
      exact Ne.symm he
  | removeElement j =>
    simp only [entryAfter] at h
    split at h
    · cases h
    · exact .inr ⟨by simp, s, h, rfl, rfl⟩
  | retarget j ts =>
    simp only [entryAfter] at h
    split at h
    · obtain ⟨t, ht, rfl⟩ := Option.map_eq_some_iff.1 h
      exact .inr ⟨by simp, t, ht, rfl, rfl⟩
    · exact .inr ⟨by simp, s, h, rfl, rfl⟩
  | _ => exact .inr ⟨by simp, s, h, rfl, rfl⟩

theorem entryAfter_none (h : d.entryAfter c id = none) (hs : d.elements.find? id = some s) :
    c = .removeElement id := by
  cases c with
  | removeElement j =>
    simp only [entryAfter, hs, ite_eq_left_iff, reduceCtorEq, imp_false, not_not] at h
    rw [h]
  | addElement e =>
    simp only [entryAfter, hs] at h
    split at h <;> cases h
  | retarget j ts =>
    simp only [entryAfter, hs] at h
    split at h <;> cases h
  | _ => simp [entryAfter, hs] at h

section Batches

/-- The changes are all valid, one after the other, and lead to `d'`. -/
def Becomes (d : Deployment) (cs : List Change) (d' : Deployment) : Prop :=
  d.applyAll 0 cs = .ok d'

theorem applyAll_ok_index {m n : Nat} (h : d.applyAll m cs = .ok d') : d.applyAll n cs = .ok d' := by
  induction cs generalizing d m n with
  | nil => exact h
  | cons c cs ih =>
    simp only [applyAll] at h ⊢
    split at h
    · cases h
    · exact ih h

@[simp] theorem becomes_nil : d.Becomes [] d' ↔ d = d' := by
  simp [Becomes, applyAll]

theorem becomes_cons :
    d.Becomes (c :: cs) d' ↔ ∃ m, d.apply c = .ok m ∧ m.Becomes cs d' := by
  simp only [Becomes, applyAll]
  cases d.apply c with
  | error e => simp
  | ok m => simpa using ⟨applyAll_ok_index, applyAll_ok_index⟩

theorem becomes_append {xs ys : List Change} :
    d.Becomes (xs ++ ys) d' ↔ ∃ m, d.Becomes xs m ∧ m.Becomes ys d' := by
  induction xs generalizing d with
  | nil => simp
  | cons x xs ih =>
    simp only [List.cons_append, becomes_cons, ih]
    constructor
    · rintro ⟨m, hm, l, hl, hd⟩
      exact ⟨l, ⟨m, hm, hl⟩, hd⟩
    · rintro ⟨l, ⟨m, hm, hl⟩, hd⟩
      exact ⟨m, hm, l, hl, hd⟩

def FailsAt (d : Deployment) (cs : List Change) (k : Nat) (c : Change) (cause : ValidationError) :
    Prop :=
  ∃ valid rest m, cs = valid ++ c :: rest ∧ valid.length = k ∧ d.Becomes valid m ∧
    m.apply c = .error cause

theorem failsAt_cons {x : Change} {k : Nat} {cause : ValidationError} :
    d.FailsAt (x :: cs) k c cause ↔ k = 0 ∧ x = c ∧ d.apply x = .error cause ∨
      ∃ m j, k = j + 1 ∧ d.apply x = .ok m ∧ m.FailsAt cs j c cause := by
  constructor
  · rintro ⟨valid, rest, m, hcs, hlen, hm, hc⟩
    cases valid with
    | nil =>
      cases hcs
      exact .inl ⟨hlen.symm, rfl, becomes_nil.1 hm ▸ hc⟩
    | cons y valid =>
      cases hcs
      obtain ⟨l, hl, hm⟩ := becomes_cons.1 hm
      exact .inr ⟨l, valid.length, hlen.symm, hl, valid, rest, m, rfl, rfl, hm, hc⟩
  · rintro (⟨rfl, rfl, hc⟩ | ⟨l, _, rfl, hl, valid, rest, m, rfl, rfl, hm, hc⟩)
    · exact ⟨[], cs, d, rfl, rfl, becomes_nil.2 rfl, hc⟩
    · exact ⟨x :: valid, rest, m, rfl, rfl, becomes_cons.2 ⟨l, hl, hm⟩, hc⟩

theorem applyAll_eq_error_iff {n i : Nat} {cause : ValidationError} :
    d.applyAll n cs = .error (i, c, cause) ↔ ∃ k, i = n + k ∧ d.FailsAt cs k c cause := by
  induction cs generalizing d n with
  | nil => simp [applyAll, FailsAt]
  | cons x cs ih =>
    simp only [failsAt_cons, applyAll]
    cases d.apply x with
    | error e => simp [eq_comm]
    | ok m =>
      refine ih.trans ⟨?_, ?_⟩
      · rintro ⟨k, rfl, h⟩
        exact ⟨k + 1, by omega, .inr ⟨m, k, rfl, rfl, h⟩⟩
      · rintro ⟨_, rfl, ⟨_, _, ⟨⟩⟩ | ⟨_, k, rfl, ⟨⟩, h⟩⟩
        exact ⟨k, by omega, h⟩

theorem failsAt_iff {k : Nat} {cause : ValidationError} :
    d.FailsAt cs k c cause ↔ d.applyAll 0 cs = .error (k, c, cause) := by
  simp [applyAll_eq_error_iff]

/-- What every valid change of a batch preserves is preserved by the batch. -/
theorem Becomes.preserves_of_mem {P : Deployment → Prop} (h : d.Becomes cs d')
    (hstep : ∀ c ∈ cs, ∀ a b, apply a c = .ok b → P a → P b) (hd : P d) : P d' := by
  induction cs generalizing d with
  | nil => exact becomes_nil.1 h ▸ hd
  | cons c cs ih =>
    obtain ⟨m, hm, h⟩ := becomes_cons.1 h
    obtain ⟨hc, hstep⟩ := List.forall_mem_cons.1 hstep
    exact ih h hstep (hc d m hm hd)

theorem Becomes.preserves {P : Deployment → Prop} (h : d.Becomes cs d')
    (hstep : ∀ a c b, apply a c = .ok b → P a → P b) (hd : P d) : P d' :=
  h.preserves_of_mem (fun c _ a b => hstep a c b) hd

theorem Becomes.settings (h : d.Becomes cs d') :
    d'.policy = d.policy ∧ d'.defaultContext = d.defaultContext := by
  refine h.preserves (P := fun m => m.policy = d.policy ∧ m.defaultContext = d.defaultContext)
    (fun a c b hb ha => ?_) ⟨rfl, rfl⟩
  have hl := leads_of_apply hb
  exact ⟨hl.policy.trans ha.1, hl.defaultContext.trans ha.2⟩

/-- Every element is deployed under its own number. -/
def Keyed (d : Deployment) : Prop :=
  ∀ id s, d.elements.find? id = some s → s.element.id = id

theorem Keyed.apply (hd : d.Keyed) (h : d.apply c = .ok d') : d'.Keyed := by
  intro id s hs
  rw [(leads_of_apply h).elements] at hs
  rcases entryAfter_some hs with ⟨_, hid, _⟩ | ⟨_, t, ht, hst, _⟩
  · exact hid
  · exact hst.trans (hd id t ht)

theorem Becomes.keyed (h : d.Becomes cs d') (hd : d.Keyed) : d'.Keyed :=
  h.preserves (fun _ _ _ hb ha => ha.apply hb) hd

end Batches

section Adding

/-- Some change adds an element of this number. -/
def Adds (cs : List Change) (id : ElementId) : Prop :=
  ∃ e : Element, .addElement e ∈ cs ∧ e.id = id

/-- The element is removed, and one of its number is added later. -/
def Revives (cs : List Change) (id : ElementId) : Prop :=
  ∃ as e bs, cs = as ++ .addElement e :: bs ∧ e.id = id ∧ .removeElement id ∈ as

theorem adds_cons :
    Adds (c :: cs) id ↔ (∃ e : Element, c = .addElement e ∧ e.id = id) ∨ Adds cs id := by
  simp [Adds, or_and_right, exists_or, eq_comm]

theorem Revives.adds (h : Revives cs id) : Adds cs id := by
  obtain ⟨as, e, bs, rfl, he, _⟩ := h
  exact ⟨e, by simp, he⟩

theorem Revives.removes (h : Revives cs id) : .removeElement id ∈ cs := by
  obtain ⟨as, e, bs, rfl, _, hr⟩ := h
  exact List.mem_append_left _ hr

theorem Revives.append_right (h : Revives cs id) (ys : List Change) : Revives (cs ++ ys) id := by
  obtain ⟨as, e, bs, rfl, he, hr⟩ := h
  exact ⟨as, e, bs ++ ys, by simp, he, hr⟩

theorem Revives.append_left (h : Revives cs id) (xs : List Change) : Revives (xs ++ cs) id := by
  obtain ⟨as, e, bs, rfl, he, hr⟩ := h
  exact ⟨xs ++ as, e, bs, by simp, he, List.mem_append_right xs hr⟩

theorem Becomes.enabledIn (h : d.Becomes cs d') (hs : d'.elements.find? id = some s) :
    s.enabledIn = ∅ ∧ Adds cs id ∨
      ¬ Adds cs id ∧ ∃ t, d.elements.find? id = some t ∧ s.enabledIn = t.enabledIn := by
  induction cs generalizing d with
  | nil =>
    rw [← becomes_nil.1 h] at hs
    exact .inr ⟨by simp [Adds], s, hs, rfl⟩
  | cons c cs ih =>
    obtain ⟨m, hm, h⟩ := becomes_cons.1 h
    rw [adds_cons]
    rcases ih h with ⟨hempty, hadds⟩ | ⟨hno, t, ht, hst⟩
    · exact .inl ⟨hempty, .inr hadds⟩
    · rw [(leads_of_apply hm).elements] at ht
      rcases entryAfter_some ht with ⟨hc, hid, hempty⟩ | ⟨hnot, u, hu, _, htu⟩
      · exact .inl ⟨hst.trans hempty, .inl ⟨t.element, hc, hid⟩⟩
      · exact .inr ⟨fun hor => hor.elim (fun ⟨e, he, hid⟩ => hnot e he hid) hno, u, hu,
          hst.trans htu⟩

theorem Becomes.removed (h : d.Becomes cs d') (hs : d.elements.find? id = some s)
    (hnone : d'.elements.find? id = none) : .removeElement id ∈ cs := by
  induction cs generalizing d s with
  | nil =>
    rw [← becomes_nil.1 h, hs] at hnone
    cases hnone
  | cons c cs ih =>
    obtain ⟨m, hm, h⟩ := becomes_cons.1 h
    cases hm' : m.elements.find? id with
    | some t => exact List.mem_cons_of_mem c (ih h hm')
    | none =>
      rw [(leads_of_apply hm).elements] at hm'
      exact entryAfter_none hm' hs ▸ List.mem_cons_self

theorem Becomes.revives (h : d.Becomes cs d') (hs : d.elements.find? id = some s)
    (ha : Adds cs id) : Revives cs id := by
  obtain ⟨e, he, rfl⟩ := ha
  obtain ⟨as, bs, rfl⟩ := List.append_of_mem he
  obtain ⟨m, hm, h⟩ := becomes_append.1 h
  obtain ⟨n, hn, _⟩ := becomes_cons.1 h
  exact ⟨as, e, bs, rfl, rfl, hm.removed hs (addElement_ok hn).1⟩

end Adding

section Blank

def blank (d : Deployment) : Deployment :=
  { d with elements := d.elements.mapWithKey fun _ s => { s with enabledIn := ∅ } }

theorem find?_blank : d.blank.elements.find? id =
    (d.elements.find? id).map fun s => { s with enabledIn := ∅ } :=
  OrdMap.find?_mapWithKey ..

theorem isTargeted_blank (d : Deployment) (t : ContextId) :
    d.blank.isTargeted t = d.isTargeted t := by
  simp [isTargeted, blank, OrdMap.values, OrdMap.mapWithKey, List.any_map, Function.comp_def]

theorem prune_blank (d : Deployment) : d.blank.prune = d.prune.blank := by
  simp only [prune, isTargeted_blank]
  rfl

theorem blank_insert (d : Deployment) (id : ElementId) (s : Deployed) (n : Nat) :
    blank { d with elements := d.elements.insert id s, nextCopy := n } =
      { d.blank with
        elements := d.blank.elements.insert id { s with enabledIn := ∅ }
        nextCopy := n } := by
  simp only [blank, OrdMap.mapWithKey_insert]

theorem blank_erase (d : Deployment) (id : ElementId) :
    blank { d with elements := d.elements.erase id } =
      { d.blank with elements := d.blank.elements.erase id } := by
  simp only [blank, OrdMap.mapWithKey_erase]

theorem contains_blank : d.blank.elements.contains id = d.elements.contains id := by
  simp [OrdMap.contains, find?_blank]

/-- No change looks at where elements are enabled. -/
theorem apply_blank (d : Deployment) (c : Change) : d.blank.apply c = (d.apply c).map blank := by
  cases c with
  | addPhysical p => rfl
  | removePhysical p =>
    simp only [apply, blank]
    cases d.contexts.removePhysical p <;> rfl
  | addContext c =>
    simp only [apply, blank]
    cases d.contexts.bind c <;> rfl
  | removeContext j =>
    have ht := isTargeted_blank d j
    simp only [apply]
    rw [ht, show d.blank.contexts = d.contexts from rfl]
    cases d.contexts.unbind j <;> rfl
  | updateRank j rank =>
    simp only [apply, blank]
    cases d.contexts.updateRank j rank <;> rfl
  | addElement e =>
    simp only [apply, addElement, contains_blank]
    rw [show d.blank.checkTargets e.targets = d.checkTargets e.targets from rfl]
    split
    · rfl
    · cases d.checkTargets e.targets with
      | error => rfl
      | ok =>
        simp only [Except.map]
        rw [blank_insert]
        rfl
  | removeElement j =>
    simp only [apply, contains_blank]
    split
    · rw [Except.map, ← prune_blank, blank_erase]
    · rfl
  | retarget j ts =>
    simp only [apply, retarget, find?_blank]
    rw [show d.blank.checkTargets ts = d.checkTargets ts from rfl]
    cases d.checkTargets ts with
    | error => rfl
    | ok =>
      cases d.elements.find? j with
      | none => rfl
      | some s =>
        simp only [Option.map_some, Except.map]
        rw [← prune_blank, blank_insert]
        rfl
  | refreshFilters p =>
    simp only [apply]
    rw [show d.blank.contexts = d.contexts from rfl]
    split <;> rfl

theorem Becomes.blank (h : d.Becomes cs d') : d.blank.Becomes cs d'.blank := by
  induction cs generalizing d with
  | nil => rw [← becomes_nil.1 h, becomes_nil]
  | cons c cs ih =>
    obtain ⟨m, hm, h⟩ := becomes_cons.1 h
    exact becomes_cons.2 ⟨m.blank, by rw [apply_blank, hm]; rfl, ih h⟩

theorem Becomes.unique {e : Deployment} (h : d.Becomes cs d') (he : d.Becomes cs e) : d' = e := by
  cases h.symm.trans he
  rfl

end Blank

end Deployment

end ServletContainer
