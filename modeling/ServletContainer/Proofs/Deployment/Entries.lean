import ServletContainer.Proofs.Deployment.Served

/-! What a batch makes of single elements and contexts. Each can be looked at on its own: what becomes
of it depends on the changes alone (`Becomes.traces`, `Commits.traces`), and a change is about one of
them at most. To see that a batch is valid it is enough to look at each change in the state that the
ones before it lead to (`exists_becomes`). -/
namespace ServletContainer

namespace Element

def original (e : Element) : Element := { e with copy := 0 }

@[simp] theorem original_withTargets (e : Element) (ts : List ContextId) (copy : Nat) :
    (e.withTargets ts copy).original = e.withTargets ts 0 := rfl

@[simp] theorem withTargets_id (e : Element) (ts : List ContextId) (copy : Nat) :
    (e.withTargets ts copy).id = e.id := rfl

@[simp] theorem withTargets_withTargets (e : Element) (ts us : List ContextId) (m n : Nat) :
    (e.withTargets ts m).withTargets us n = e.withTargets us n := rfl

@[simp] theorem mem_distinct {ts : List ContextId} {t : ContextId} : t ∈ distinct ts ↔ t ∈ ts := by
  suffices h : ∀ us, t ∈ ts.foldl addTarget us ↔ t ∈ us ∨ t ∈ ts by simpa [distinct] using h []
  induction ts with
  | nil => simp
  | cons u ts ih =>
    intro us
    rw [List.foldl_cons, ih, addTarget]
    grind

theorem nodup_distinct (ts : List ContextId) : (distinct ts).Nodup :=
  List.foldlRecOn ts addTarget (motive := List.Nodup) .nil fun us hus t _ => by
    rw [addTarget]
    split
    · exact hus
    · rename_i hnew
      exact List.nodup_append.2 ⟨hus, by simp, by grind⟩

end Element

namespace Change

def element? : Change → Option ElementId
  | .addElement e => some e.id
  | .removeElement id => some id
  | .retarget id _ => some id
  | _ => none

def context? : Change → Option ContextId
  | .addContext c => some c.id
  | .removeContext id => some id
  | .updateRank id _ => some id
  | _ => none

/-- What a valid change makes of an element, copy numbers aside. -/
def onElement (id : ElementId) (o : Option Element) : Change → Option Element
  | .addElement e => if id = e.id then some e.original else o
  | .removeElement j => if j = id then none else o
  | .retarget j ts => if j = id then o.map (·.withTargets ts 0) else o
  | _ => o

def onContext (id : ContextId) (o : Option LogicalContext) : Change → Option LogicalContext
  | .addContext c => if id = c.id then some c else o
  | .removeContext j => if j = id then none else o
  | .updateRank j rank => if j = id then o.map fun x => { x with rank := rank } else o
  | _ => o

variable {c : Change} {cs : List Change} {id : ElementId} {j : ContextId}

theorem onElement_of_ne (h : c.element? ≠ some id) (o : Option Element) : c.onElement id o = o := by
  cases c <;> simp_all [onElement, element?, eq_comm]

theorem onContext_of_ne (h : c.context? ≠ some j) (o : Option LogicalContext) :
    c.onContext j o = o := by
  cases c <;> simp_all [onContext, context?, eq_comm]

theorem foldl_onElement_of_ne (h : ∀ c ∈ cs, c.element? ≠ some id) (o : Option Element) :
    cs.foldl (onElement id) o = o :=
  foldl_eq_self fun c hc => onElement_of_ne (h c hc) o

theorem foldl_onContext_of_ne (h : ∀ c ∈ cs, c.context? ≠ some j) (o : Option LogicalContext) :
    cs.foldl (onContext j) o = o :=
  foldl_eq_self fun c hc => onContext_of_ne (h c hc) o

theorem foldl_onElement_none (h : ¬ Deployment.Adds cs id) : cs.foldl (onElement id) none = none := by
  refine foldl_eq_self fun c hc => ?_
  cases c with
  | addElement e => exact if_neg fun hid => h ⟨e, hc, hid.symm⟩
  | _ => simp [onElement]

theorem exists_of_foldl_onElement {p : Element → Prop} {o : Option Element} {e : Element}
    (hp : ∀ e ts, p (e.withTargets ts 0) → p e) (hcs : ∀ e, .addElement e ∈ cs → ¬ p e.original)
    (h : cs.foldl (onElement id) o = some e) (he : p e) : ∃ f, o = some f ∧ p f := by
  induction cs generalizing o with
  | nil => exact ⟨e, h, he⟩
  | cons c cs ih =>
    obtain ⟨f, hf, hpf⟩ := ih (fun f hf => hcs f (List.mem_cons_of_mem c hf)) h
    cases c with
    | addElement g =>
      simp only [onElement] at hf
      split at hf
      · cases hf
        exact absurd hpf (hcs g List.mem_cons_self)
      · exact ⟨f, hf, hpf⟩
    | removeElement j =>
      simp only [onElement] at hf
      split at hf
      · cases hf
      · exact ⟨f, hf, hpf⟩
    | retarget j ts =>
      simp only [onElement] at hf
      split at hf
      · obtain ⟨g, hg, rfl⟩ := Option.map_eq_some_iff.1 hf
        exact ⟨g, hg, hp g ts hpf⟩
      · exact ⟨f, hf, hpf⟩
    | _ => exact ⟨f, hf, hpf⟩

theorem foldl_onContext_removeElement (ids : List ElementId) (o : Option LogicalContext) :
    (ids.map removeElement).foldl (onContext j) o = o := by
  refine foldl_onContext_of_ne (fun c hc => ?_) o
  obtain ⟨_, _, rfl⟩ := List.mem_map.1 hc
  exact nofun

theorem foldl_onContext_addElement (es : List Element) (o : Option LogicalContext) :
    (es.map addElement).foldl (onContext j) o = o := by
  refine foldl_onContext_of_ne (fun c hc => ?_) o
  obtain ⟨_, _, rfl⟩ := List.mem_map.1 hc
  exact nofun

theorem foldl_onElement_addContext (cs : List LogicalContext) (o : Option Element) :
    (cs.map addContext).foldl (onElement id) o = o := by
  refine foldl_onElement_of_ne (fun c hc => ?_) o
  obtain ⟨_, _, rfl⟩ := List.mem_map.1 hc
  exact nofun

theorem foldl_onElement_removeElement (ids : List ElementId) (o : Option Element) :
    (ids.map removeElement).foldl (onElement id) o = if id ∈ ids then none else o := by
  induction ids generalizing o with
  | nil => simp
  | cons i ids ih =>
    rw [List.map_cons, List.foldl_cons, ih, onElement]
    grind

theorem foldl_onContext_removeContext (ids : List ContextId) (o : Option LogicalContext) :
    (ids.map removeContext).foldl (onContext j) o = if j ∈ ids then none else o := by
  induction ids generalizing o with
  | nil => simp
  | cons i ids ih =>
    rw [List.map_cons, List.foldl_cons, ih, onContext]
    grind

theorem foldl_onContext_addContext {cs : List LogicalContext} {c : LogicalContext} (hc : c ∈ cs)
    (hids : (cs.map (·.id)).Nodup) (o : Option LogicalContext) :
    (cs.map addContext).foldl (onContext c.id) o = some c := by
  obtain ⟨as, bs, rfl⟩ := List.append_of_mem hc
  simp only [List.map_append, List.map_cons, List.nodup_middle, List.nodup_cons, List.mem_append,
    not_or] at hids
  rw [List.map_append, List.map_cons, List.foldl_append, List.foldl_cons, foldl_onContext_of_ne]
  · simp [onContext]
  · intro x hx hid
    obtain ⟨b, hb, rfl⟩ := List.mem_map.1 hx
    exact hids.1.2 (Option.some.inj hid ▸ List.mem_map_of_mem hb)

theorem foldl_onElement_addElement {es : List Element} {e : Element} (he : e ∈ es)
    (hids : (es.map (·.id)).Nodup) (o : Option Element) :
    (es.map addElement).foldl (onElement e.id) o = some e.original := by
  obtain ⟨as, bs, rfl⟩ := List.append_of_mem he
  simp only [List.map_append, List.map_cons, List.nodup_middle, List.nodup_cons, List.mem_append,
    not_or] at hids
  rw [List.map_append, List.map_cons, List.foldl_append, List.foldl_cons, foldl_onElement_of_ne]
  · simp [onElement]
  · intro x hx hid
    obtain ⟨b, hb, rfl⟩ := List.mem_map.1 hx
    exact hids.1.2 (Option.some.inj hid ▸ List.mem_map_of_mem hb)

end Change

namespace Deployment

variable {d m : Deployment} {c : Change} {cs : List Change} {id : ElementId} {j : ContextId}

/-- The element that is deployed, copy numbers aside. -/
def placed (d : Deployment) (id : ElementId) : Option Element :=
  (d.elements.find? id).map (·.element.original)

theorem placed_eq_none : d.placed id = none ↔ d.elements.find? id = none := Option.map_eq_none_iff

theorem contains_eq_false : d.elements.contains id = false ↔ d.placed id = none := by
  rw [placed_eq_none, OrdMap.contains, Option.isSome_eq_false_iff, Option.isNone_iff_eq_none]

theorem contains_iff : d.elements.contains id ↔ d.placed id ≠ none := by
  rw [Ne, ← contains_eq_false, Bool.not_eq_false]

theorem placed_blank (d : Deployment) (id : ElementId) : d.blank.placed id = d.placed id := by
  rw [placed, find?_blank, Option.map_map]
  rfl

/-- The elements and contexts of `m` are those of `d` after the changes. -/
structure Traces (d : Deployment) (cs : List Change) (m : Deployment) : Prop where
  placed : ∀ id, m.placed id = cs.foldl (Change.onElement id) (d.placed id)
  context : ∀ id, m.contexts.find? id = cs.foldl (Change.onContext id) (d.contexts.find? id)

theorem traces_nil (d : Deployment) : d.Traces [] d := ⟨fun _ => rfl, fun _ => rfl⟩

theorem placed_of_apply (h : d.apply c = .ok m) (id : ElementId) :
    m.placed id = c.onElement id (d.placed id) := by
  rw [placed, (leads_of_apply h).elements]
  cases c with
  | addElement e =>
    simp only [entryAfter, Change.onElement]
    split <;> rfl
  | removeElement j =>
    simp only [entryAfter, Change.onElement]
    split <;> rfl
  | retarget j ts =>
    simp only [entryAfter, Change.onElement, placed]
    split
    · rw [Option.map_map, Option.map_map]
      rfl
    · rfl
  | _ => rfl

theorem context_of_apply (h : d.apply c = .ok m) (id : ContextId) :
    m.contexts.find? id = c.onContext id (d.contexts.find? id) := by
  have hcontexts := (leads_of_apply h).contexts
  cases c with
  | addPhysical p =>
    rw [← Except.ok.inj hcontexts]
    exact congrArg (·.find? id) (Contexts.logical_pin d.contexts p)
  | removePhysical p => exact congrArg (·.find? id) (Contexts.removePhysical_ok hcontexts).1
  | addContext x =>
    refine (congrArg (·.find? id) (Contexts.bind_ok hcontexts).2.1).trans ?_
    exact OrdMap.find?_insert_eq ..
  | removeContext j =>
    obtain ⟨⟨x, contexts⟩, hunbind, rfl⟩ := exists_of_map_ok hcontexts
    refine (congrArg (·.find? id) (Contexts.unbind_ok hunbind).2.1).trans ?_
    exact OrdMap.find?_erase_eq ..
  | updateRank j rank =>
    obtain ⟨x, _, hlogical, _⟩ := Contexts.updateRank_ok hcontexts
    refine (congrArg (·.find? id) hlogical).trans ?_
    exact OrdMap.find?_modify ..
  | _ =>
    rw [← Except.ok.inj hcontexts]
    rfl

theorem Becomes.traces (h : d.Becomes cs m) : d.Traces cs m := by
  induction cs generalizing d with
  | nil =>
    rw [← becomes_nil.1 h]
    exact traces_nil d
  | cons c cs ih =>
    obtain ⟨a, ha, h⟩ := becomes_cons.1 h
    obtain ⟨hplaced, hcontext⟩ := ih h
    exact ⟨fun id => by rw [hplaced, placed_of_apply ha, List.foldl_cons],
      fun id => by rw [hcontext, context_of_apply ha, List.foldl_cons]⟩

theorem Commits.traces (h : d.Commits cs m) : d.Traces cs m := by
  obtain ⟨a, ha, hblank⟩ := h.blank
  obtain ⟨hplaced, hcontext⟩ := ha.traces
  have hcontexts : m.contexts = a.contexts := congrArg (·.contexts) hblank
  refine ⟨fun id => ?_, fun id => by rw [hcontexts, hcontext]⟩
  rw [← placed_blank, hblank, placed_blank, hplaced]

theorem Traces.placed_or_adds (h : d.Traces cs m) (hid : m.placed id ≠ none) :
    d.placed id ≠ none ∨ Adds cs id := by
  by_contra hnot
  obtain ⟨hnone, hadds⟩ := not_or.1 hnot
  rw [h.placed, not_not.1 hnone] at hid
  exact hid (Change.foldl_onElement_none hadds)

/-- What holds of all that is deployed and of all that is added holds of all that is deployed then. -/
theorem Traces.forall_placed {p : Element → Prop} (h : d.Traces cs m)
    (htargets : ∀ e ts, p e → p (e.withTargets ts 0)) (hcs : ∀ e, .addElement e ∈ cs → p e.original)
    (hd : ∀ id e, d.placed id = some e → p e) : ∀ id e, m.placed id = some e → p e := by
  intro id e he
  by_contra hnot
  rw [h.placed] at he
  obtain ⟨f, hf, hfnot⟩ := Change.exists_of_foldl_onElement (p := fun e => ¬ p e)
    (fun e ts => mt (htargets e ts)) (fun e hadd => not_not.2 (hcs e hadd)) he hnot
  exact hfnot (hd id f hf)

theorem Commits.placed_addElement {e : Element} (h : d.Commits [.addElement e] m) :
    d.placed e.id = none ∧
      ∀ id, m.placed id = if id = e.id then some e.original else d.placed id := by
  refine ⟨?_, h.traces.placed⟩
  obtain ⟨_, hbecomes, _⟩ := h
  obtain ⟨_, hadd, _⟩ := becomes_cons.1 hbecomes
  exact placed_eq_none.2 (addElement_ok hadd).1

theorem Commits.placed_removeElements {ids : List ElementId}
    (h : d.Commits (ids.map .removeElement) m) (id : ElementId) :
    m.placed id = if id ∈ ids then none else d.placed id := by
  rw [h.traces.placed, Change.foldl_onElement_removeElement]

section Validity

theorem exists_becomes
    (h : ∀ as c bs a, cs = as ++ c :: bs → d.Becomes as a → ∃ b, a.apply c = .ok b) :
    ∃ m, d.Becomes cs m := by
  induction cs using List.reverseRecOn with
  | nil => exact ⟨d, becomes_nil.2 rfl⟩
  | append_singleton cs c ih =>
    obtain ⟨a, ha⟩ := ih fun as x bs a hcs => h as x (bs ++ [c]) a (by simp [hcs])
    obtain ⟨b, hb⟩ := h cs c [] a rfl ha
    exact ⟨b, becomes_append.2 ⟨a, ha, becomes_cons.2 ⟨b, hb, becomes_nil.2 rfl⟩⟩⟩

/-- Changes of which each is about something else are valid if each of them is after some of the
others. -/
theorem exists_becomes_filterMap {α : Type u} {κ : Type v} {k : α → κ} {f : α → Option Change}
    {xs : List α} (hdistinct : xs.Pairwise fun x y => k x ≠ k y)
    (h : ∀ (as : List α) x c a, x ∈ xs → (∀ y ∈ as, k y ≠ k x) → f x = some c →
      d.Becomes (as.filterMap f) a → ∃ b, a.apply c = .ok b) :
    ∃ m, d.Becomes (xs.filterMap f) m := by
  refine exists_becomes fun as c bs a hcs ha => ?_
  obtain ⟨ys, zs, rfl, rfl, hzs⟩ := List.filterMap_eq_append_iff.1 hcs
  obtain ⟨us, x, vs, rfl, hus, hx, _⟩ := List.filterMap_eq_cons_iff.1 hzs
  obtain ⟨_, _, hdistinct⟩ := List.pairwise_append.1 hdistinct
  exact h ys x c a (by simp) (fun y hy => hdistinct y hy x (by simp)) hx ha

theorem exists_becomes_map {α : Type u} {κ : Type v} {k : α → κ} {f : α → Change} {xs : List α}
    (hdistinct : xs.Pairwise fun x y => k x ≠ k y)
    (h : ∀ (as : List α) x a, x ∈ xs → (∀ y ∈ as, k y ≠ k x) → d.Becomes (as.map f) a →
      ∃ b, a.apply (f x) = .ok b) :
    ∃ m, d.Becomes (xs.map f) m := by
  rw [← List.filterMap_eq_map]
  refine exists_becomes_filterMap hdistinct fun as x c a hx has hc ha => ?_
  rw [List.filterMap_eq_map] at ha
  rw [← Option.some.inj hc]
  exact h as x a hx has ha

theorem exists_addContext {x : LogicalContext} (h : d.contexts.find? x.id = none) :
    ∃ m, d.apply (.addContext x) = .ok m := by
  have hnew : ¬ d.contexts.logical.contains x.id := by
    rw [OrdMap.contains, show d.contexts.logical.find? x.id = none from h]
    exact Bool.false_ne_true
  simp only [apply, Contexts.bind, if_neg hnew]
  exact ⟨_, rfl⟩

theorem exists_removeContext {x : LogicalContext} (h : d.contexts.find? j = some x) :
    ∃ m, d.apply (.removeContext j) = .ok m := by
  simp only [apply, Contexts.unbind, show d.contexts.logical.find? j = some x from h]
  exact ⟨_, rfl⟩

theorem exists_updateRank {x : LogicalContext} {rank : Int} (h : d.contexts.find? j = some x) :
    ∃ m, d.apply (.updateRank j rank) = .ok m := by
  simp only [apply, Contexts.updateRank, show d.contexts.logical.find? j = some x from h]
  exact ⟨_, rfl⟩

theorem exists_removeElement (h : d.placed id ≠ none) :
    ∃ m, d.apply (.removeElement id) = .ok m := by
  have hknown : d.elements.contains id :=
    Option.isSome_iff_ne_none.2 (mt placed_eq_none.2 h)
  exact ⟨_, if_pos hknown⟩

theorem checkTargets_eq_ok {ts : List ContextId} :
    d.checkTargets ts = .ok () ↔ ∀ t ∈ ts, ∃ x, d.contexts.find? t = some x := by
  have hcheck : d.checkTargets ts = .ok () ↔
      (ts.find? fun t => !d.contexts.logical.contains t) = none := by
    unfold checkTargets
    split <;> simp_all
  rw [hcheck, List.find?_eq_none]
  exact forall₂_congr fun t _ => by
    simp [OrdMap.contains, Contexts.find?, Option.ne_none_iff_exists', ← ne_eq]

theorem exists_addElement {e : Element} (h : d.placed e.id = none)
    (ht : ∀ t ∈ e.targets, ∃ x, d.contexts.find? t = some x) :
    ∃ m, d.apply (.addElement e) = .ok m := by
  have hnew : ¬ d.elements.contains e.id := by
    rw [OrdMap.contains, placed_eq_none.1 h]
    exact Bool.false_ne_true
  simp only [apply, addElement, if_neg hnew, checkTargets_eq_ok.2 ht]
  exact ⟨_, rfl⟩

theorem bound_of_addElement {e : Element} (h : d.addElement e = .ok m) :
    ∀ t ∈ e.targets, ∃ x, d.contexts.find? t = some x := by
  unfold addElement at h
  split at h
  · cases h
  · obtain ⟨_, hcheck, _⟩ := exists_of_map_ok h
    exact checkTargets_eq_ok.1 hcheck

theorem bound_of_retarget {ts : List ContextId} (h : d.retarget id ts = .ok m) :
    ∀ t ∈ ts, ∃ x, d.contexts.find? t = some x := by
  unfold retarget at h
  split at h
  · cases h
  · rename_i hcheck
    exact checkTargets_eq_ok.1 hcheck

end Validity

end Deployment

end ServletContainer
