import ServletContainer.Counters
import ServletContainer.Proofs.Context.Mounts

/-! Contexts after any calls. Each context is bound once (`Orderly`), a mount point that nobody asked for
by itself stays as long as it is pinned or has a context (`Tended`), and what is deployed goes back to
contexts that were made, each at its own place in the order (`Stems`). Together they say what the contexts
look like after a run of calls, failed ones included (`run_orderly`). -/
namespace ServletContainer

def Counters.newContexts (n : Counters) : List (ContextId × String) → List LogicalContext
  | [] => []
  | (id, path) :: names =>
    match n.newContext id path with
    | (.ok c, n) => c :: n.newContexts names
    | (.error _, n) => n.newContexts names

namespace LogicalContext

/-- The context as it was made, perhaps with further settings. -/
def Amends (c made : LogicalContext) : Prop :=
  c.id = made.id ∧ c.path = made.path ∧ c.order = made.order

/-- Has the higher rank, or the same and was made earlier. -/
def Outranks (c d : LogicalContext) : Prop := d.rank < c.rank ∨ c.rank = d.rank ∧ c.order < d.order

theorem Outranks.asymm {c d : LogicalContext} (h : c.Outranks d) : ¬ d.Outranks c := by
  unfold Outranks at *
  omega

theorem outranks_of_precedes {c d : LogicalContext} (h : c.precedes d) (hne : c.order ≠ d.order) :
    c.Outranks d := by
  simp only [precedes, Bool.or_eq_true, Bool.and_eq_true, decide_eq_true_eq, beq_iff_eq] at h
  unfold Outranks
  omega

end LogicalContext

namespace Counters

variable {n : Counters} {names : List (ContextId × String)} {c d : LogicalContext}

theorem order_of_mem_newContexts (h : c ∈ n.newContexts names) : n.order ≤ c.order := by
  induction names generalizing n with
  | nil => cases h
  | cons x names ih =>
    simp only [newContexts, newContext] at h
    cases hpath : ContextPath.parse x.2 with
    | error e =>
      rw [hpath] at h
      exact ih h
    | ok p =>
      rw [hpath] at h
      rcases List.mem_cons.1 h with rfl | h
      · exact Nat.le_refl _
      · exact Nat.le_of_succ_le (ih h)

theorem pairwise_newContexts (n : Counters) (names : List (ContextId × String)) :
    (n.newContexts names).Pairwise fun c d => c.order < d.order := by
  induction names generalizing n with
  | nil => exact .nil
  | cons x names ih =>
    simp only [newContexts, newContext]
    cases ContextPath.parse x.2 with
    | error e => exact ih n
    | ok p => exact List.pairwise_cons.2 ⟨fun d hd => order_of_mem_newContexts hd, ih _⟩

theorem eq_of_order_eq (hc : c ∈ n.newContexts names) (hd : d ∈ n.newContexts names)
    (h : c.order = d.order) : c = d := by
  have hnodup : ((n.newContexts names).map (·.order)).Nodup :=
    List.pairwise_map.2 ((n.pairwise_newContexts names).imp fun hlt => Nat.ne_of_lt hlt)
  exact List.inj_on_of_nodup_map hnodup hc hd h

end Counters

namespace Contexts

inductive Call where
  /-- For the mount point at a path, which is made if there is none. -/
  | ensure (path : ContextPath)
  | pin (path : ContextPath)
  | removePhysical (path : ContextPath)
  | bind (c : LogicalContext)
  | unbind (id : ContextId)
  | updateRank (id : ContextId) (rank : Int)

def call (cs : Contexts) : Call → Except ValidationError Contexts
  | .ensure p => .ok (cs.ensure p)
  | .pin p => .ok (cs.pin p)
  | .removePhysical p => cs.removePhysical p
  | .bind c => cs.bind c
  | .unbind id =>
    match cs.unbind id with
    | .ok (_, cs) => .ok cs
    | .error e => .error e
  | .updateRank id rank => cs.updateRank id rank

def after (cs : Contexts) (k : Call) : Contexts := (cs.call k).toOption.getD cs

def run (cs : Contexts) (ks : List Call) : Contexts := ks.foldl after cs

/-- The reasons for which calls fail. -/
def Refuses (cs : Contexts) : Call → Prop
  | .ensure _ => False
  | .pin _ => False
  | .removePhysical p => ∀ x, cs.physical.find? p = some x → x.bound ≠ []
  | .bind c => cs.logical.contains c.id
  | .unbind id => cs.logical.find? id = none
  | .updateRank id _ => cs.logical.find? id = none

variable {cs cs' : Contexts} {k : Call} {ks : List Call} {p q : ContextPath} {id : ContextId}
  {c : LogicalContext} {x : Physical}

theorem call_eq_error_iff : (∃ e, cs.call k = .error e) ↔ cs.Refuses k := by
  cases k with
  | ensure p => simp [call, Refuses]
  | pin p => simp [call, Refuses]
  | removePhysical p =>
    simp only [call, Refuses, removePhysical]
    cases hp : cs.physical.find? p with
    | none => simp
    | some x => cases hx : x.bound <;> simp [hx]
  | bind c =>
    simp only [call, Refuses, bind]
    by_cases hc : cs.logical.contains c.id <;> simp [hc]
  | unbind id =>
    simp only [call, Refuses, unbind]
    cases cs.logical.find? id <;> simp
  | updateRank id rank =>
    simp only [call, Refuses, updateRank]
    cases cs.logical.find? id <;> simp

theorem after_of_ok (h : cs.call k = .ok cs') : cs.after k = cs' := by
  rw [after, h]
  rfl

theorem after_of_error {e : ValidationError} (h : cs.call k = .error e) : cs.after k = cs := by
  rw [after, h]
  rfl

theorem unbind_of_call (h : cs.call (.unbind id) = .ok cs') : ∃ c, cs.unbind id = .ok (c, cs') := by
  simp only [call] at h
  cases hu : cs.unbind id with
  | error e =>
    rw [hu] at h
    cases h
  | ok found =>
    rw [hu] at h
    cases h
    exact ⟨found.1, rfl⟩

theorem run_induction {P : Contexts → Prop} (hcs : P cs)
    (h : ∀ cs k cs', k ∈ ks → P cs → cs.call k = .ok cs' → P cs') : P (cs.run ks) :=
  List.foldlRecOn ks after hcs fun cs hcs k hk => by
    cases hcall : cs.call k with
    | error e =>
      rw [after_of_error hcall]
      exact hcs
    | ok cs' =>
      rw [after_of_ok hcall]
      exact h cs k cs' hk hcs hcall

section Binding

/-- Every context is bound once, at its own path. -/
structure Orderly (cs : Contexts) : Prop where
  wellFormed : cs.WellFormed
  nodup : ∀ p, (cs.boundIds p).Nodup

theorem nodup_byPriority {logical : OrdMap ContextId LogicalContext} {ids : List ContextId} :
    (byPriority logical ids).Nodup ↔ ids.Nodup :=
  (sortBy_perm _ ids).nodup_iff

theorem Orderly.empty : Orderly {} := ⟨.empty, fun _ => .nil⟩

theorem Orderly.call (h : cs.Orderly) (hk : cs.call k = .ok cs') : cs'.Orderly := by
  cases k with
  | ensure p =>
    cases hk
    exact ⟨h.wellFormed.of_eq (logical_ensure cs p) (boundIds_ensure cs p),
      fun q => boundIds_ensure cs p q ▸ h.nodup q⟩
  | pin p =>
    cases hk
    exact ⟨h.wellFormed.of_eq (logical_pin cs p) (boundIds_pin cs p),
      fun q => boundIds_pin cs p q ▸ h.nodup q⟩
  | removePhysical p =>
    obtain ⟨hl, hids⟩ := removePhysical_ok hk
    exact ⟨h.wellFormed.of_eq hl hids, fun q => hids q ▸ h.nodup q⟩
  | bind c =>
    obtain ⟨hnew, _, hids⟩ := bind_ok hk
    refine ⟨h.wellFormed.bind hk, fun q => ?_⟩
    rw [hids]
    split
    · -- a context that is not there yet is bound nowhere
      have hfree : c.id ∉ cs.boundIds q := fun hmem => by
        obtain ⟨d, hd, _⟩ := h.wellFormed.known q c.id hmem
        cases hnew.symm.trans hd
      rw [nodup_byPriority]
      exact List.nodup_append.2 ⟨h.nodup q, by simp, by simp; grind⟩
    · exact h.nodup q
  | unbind id =>
    obtain ⟨c, hu⟩ := unbind_of_call hk
    obtain ⟨_, _, hids⟩ := unbind_ok hu
    refine ⟨h.wellFormed.unbind hu, fun q => ?_⟩
    rw [hids]
    split
    · exact (h.nodup q).filter _
    · exact h.nodup q
  | updateRank id rank =>
    obtain ⟨c, _, _, hids⟩ := updateRank_ok hk
    refine ⟨h.wellFormed.updateRank hk, fun q => ?_⟩
    rw [hids]
    split
    · exact nodup_byPriority.2 (h.nodup q)
    · exact h.nodup q

theorem orderly_run (ks : List Call) : (({} : Contexts).run ks).Orderly :=
  run_induction .empty fun _ _ _ _ h hk => h.call hk

end Binding

section Mounts

theorem boundIds_of_find? (hx : cs.physical.find? p = some x) : cs.boundIds p = x.bound := by
  simp [boundIds, hx]

theorem tended_empty : Tended {} := fun p x hx => by cases hx

theorem Tended.call (h : cs.Tended) (hne : ∀ p, k ≠ .ensure p) (hk : cs.call k = .ok cs') :
    cs'.Tended := by
  cases k with
  | ensure p => exact absurd rfl (hne p)
  | pin p =>
    cases hk
    exact h.pin p
  | removePhysical p => exact h.removePhysical hk
  | bind c => exact h.bind hk
  | unbind id =>
    obtain ⟨c, hu⟩ := unbind_of_call hk
    exact h.unbind hu
  | updateRank id rank => exact h.updateRank hk

theorem tended_run (hks : ∀ p, .ensure p ∉ ks) : (({} : Contexts).run ks).Tended :=
  run_induction tended_empty fun _ _ _ hmem h hk => h.call (fun p hp => hks p (hp ▸ hmem)) hk

end Mounts

section Making

/-- All contexts go back to the given ones. -/
def Stems (made : List LogicalContext) (cs : Contexts) : Prop :=
  ∀ id c, cs.logical.find? id = some c → ∃ b ∈ made, c.Amends b

variable {made : List LogicalContext}

theorem Stems.call (h : cs.Stems made) (hmade : ∀ c, k = .bind c → ∃ b ∈ made, c.Amends b)
    (hk : cs.call k = .ok cs') : cs'.Stems made := by
  intro id c hc
  cases k with
  | ensure p =>
    cases hk
    exact h id c (logical_ensure cs p ▸ hc)
  | pin p =>
    cases hk
    exact h id c (logical_pin cs p ▸ hc)
  | removePhysical p => exact h id c ((removePhysical_ok hk).1 ▸ hc)
  | bind d =>
    obtain ⟨_, hl, _⟩ := bind_ok hk
    rw [hl, OrdMap.find?_insert_eq] at hc
    split at hc
    · cases hc
      exact hmade _ rfl
    · exact h id c hc
  | unbind j =>
    obtain ⟨d, hu⟩ := unbind_of_call hk
    obtain ⟨_, hl, _⟩ := unbind_ok hu
    rw [hl, OrdMap.find?_erase_eq] at hc
    split at hc
    · cases hc
    · exact h id c hc
  | updateRank j rank =>
    obtain ⟨_, _, hl, _⟩ := updateRank_ok hk
    rw [hl, OrdMap.find?_modify] at hc
    split at hc
    · obtain ⟨d, hd, rfl⟩ := Option.map_eq_some_iff.1 hc
      exact h id d hd
    · exact h id c hc

theorem stems_run (hmade : ∀ c, .bind c ∈ ks → ∃ b ∈ made, c.Amends b) :
    (({} : Contexts).run ks).Stems made :=
  run_induction (fun _ _ hc => by cases hc) fun _ _ _ hmem h hk =>
    h.call (fun c hc => hmade c (hc ▸ hmem)) hk

theorem Stems.outranks {n : Counters} {names : List (ContextId × String)} {d : LogicalContext}
    (h : cs.Stems (n.newContexts names)) (hc : cs.logical.find? c.id = some c)
    (hd : cs.logical.find? d.id = some d) (hne : c.id ≠ d.id) (hle : c.precedes d) : c.Outranks d := by
  refine LogicalContext.outranks_of_precedes hle fun horder => hne ?_
  obtain ⟨b, hb, hcb, _, hco⟩ := h _ c hc
  obtain ⟨b', hb', hdb, _, hdo⟩ := h _ d hd
  obtain rfl := Counters.eq_of_order_eq hb hb' (hco.symm.trans (horder.trans hdo))
  exact hcb.trans hdb.symm

end Making

section Reading

theorem Orderly.count_bound (h : cs.Orderly) (hc : cs.logical.find? id = some c) :
    ∃ x, cs.physical.find? c.path = some x ∧ x.bound.count id = 1 := by
  have hmem := h.wellFormed.bound id c hc
  have hnodup := h.nodup c.path
  cases hx : cs.physical.find? c.path with
  | none => simp [boundIds, hx] at hmem
  | some x =>
    rw [boundIds_of_find? hx] at hmem hnodup
    exact ⟨x, rfl, List.count_eq_one_of_mem hnodup hmem⟩

theorem Orderly.head?_bound (h : cs.Orderly) (hx : cs.physical.find? p = some x) :
    x.bound.head? = (cs.highest p).map (·.id) := by
  have hknown := h.wellFormed.known p
  rw [boundIds_of_find? hx] at hknown
  rw [highest, hx]
  cases hb : x.bound with
  | nil => simp [hb]
  | cons id ids =>
    obtain ⟨c, hc, _⟩ := hknown id (by simp [hb])
    simp [hb, hc, h.wellFormed.keyed id c hc]

variable {n : Counters} {names : List (ContextId × String)}

theorem Orderly.pairwise_bound (h : cs.Orderly) (hstems : cs.Stems (n.newContexts names))
    (hx : cs.physical.find? p = some x) : x.bound.Pairwise fun a b => ∃ c d,
      cs.logical.find? a = some c ∧ cs.logical.find? b = some d ∧ c.Outranks d := by
  have hsorted := h.wellFormed.sorted p
  have hnodup := h.nodup p
  have hknown := h.wellFormed.known p
  rw [boundIds_of_find? hx] at hsorted hnodup hknown
  refine (hsorted.and hnodup).imp_of_mem fun {a b} ha hb hab => ?_
  obtain ⟨c, hc, _⟩ := hknown a ha
  obtain ⟨d, hd, _⟩ := hknown b hb
  obtain rfl := h.wellFormed.keyed a c hc
  obtain rfl := h.wellFormed.keyed b d hd
  exact ⟨c, d, hc, hd, hstems.outranks hc hd hab.2 (hab.1 c d hc hd)⟩

/-- The context of highest priority outranks all others that are bound at the path. -/
theorem Orderly.outranks_of_highest (h : cs.Orderly) (hstems : cs.Stems (n.newContexts names))
    (hc : cs.highest p = some c) : (cs.logical.find? c.id = some c ∧ c.path = p) ∧
      ∀ id d, cs.logical.find? id = some d → d.path = p → d ≠ c → c.Outranks d := by
  have hhead : (cs.boundAt p).head? = some c := (h.wellFormed.highest_eq p).symm.trans hc
  have hbound := h.wellFormed.mem_boundAt.1 (List.mem_of_head? hhead)
  refine ⟨hbound, fun id d hd hp hne => ?_⟩
  obtain rfl := h.wellFormed.keyed id d hd
  have hid : c.id ≠ d.id := fun hid => hne (Option.some.inj (hd.symm.trans (hid ▸ hbound.1)))
  exact hstems.outranks hbound.1 hd hid
    (h.wellFormed.head?_precedes hhead d (h.wellFormed.mem_boundAt.2 ⟨hd, hp⟩))

theorem Orderly.highest_eq_some_iff (h : cs.Orderly) (hstems : cs.Stems (n.newContexts names)) :
    cs.highest p = some c ↔ (cs.logical.find? c.id = some c ∧ c.path = p) ∧
      ∀ id d, cs.logical.find? id = some d → d.path = p → d ≠ c → c.Outranks d := by
  refine ⟨h.outranks_of_highest hstems, fun ⟨hbound, htop⟩ => ?_⟩
  have hmem : c ∈ cs.boundAt p := h.wellFormed.mem_boundAt.2 hbound
  obtain ⟨b, hb⟩ := Option.isSome_iff_exists.1 (List.isSome_head?.2 (List.ne_nil_of_mem hmem))
  have hhighest : cs.highest p = some b := (h.wellFormed.highest_eq p).trans hb
  obtain ⟨⟨hfind, hp⟩, hothers⟩ := h.outranks_of_highest hstems hhighest
  by_cases hne : b = c
  · exact hne ▸ hhighest
  · exact absurd (htop _ b hfind hp hne) (hothers _ c hbound.1 hbound.2 (Ne.symm hne)).asymm

theorem Orderly.exists_physical_iff (h : cs.Orderly) (htended : cs.Tended) :
    (∃ x, cs.physical.find? p = some x) ↔ (∃ x, cs.physical.find? p = some x ∧ x.pinned) ∨
      ∃ id c, cs.logical.find? id = some c ∧ c.path = p := by
  constructor
  · rintro ⟨x, hx⟩
    refine (htended p x hx).imp (fun hpinned => ⟨x, hx, hpinned⟩) fun hb => ?_
    obtain ⟨id, hid⟩ := List.exists_mem_of_ne_nil _ hb
    exact ⟨id, h.wellFormed.known p id (boundIds_of_find? hx ▸ hid)⟩
  · rintro (⟨x, hx, _⟩ | ⟨id, c, hc, rfl⟩)
    · exact ⟨x, hx⟩
    · exact (h.count_bound hc).imp fun _ hx => hx.1

end Reading

/-- After any calls, failed ones included, by which no contexts are bound but such as were made: each
context is bound once, in the mount point at its path; what is bound is known, and stands in the order of
rank and then of making; so the context of highest priority, which outranks all others bound at the path,
heads them. A mount point exists exactly if it is pinned or has a context, unless some were asked for by
themselves. -/
theorem run_orderly {n : Counters} {names : List (ContextId × String)} {ks : List Call}
    (hmade : ∀ c, .bind c ∈ ks → ∃ b ∈ n.newContexts names, c.Amends b) :
    let cs := ({} : Contexts).run ks
    (∀ k, ((∃ e, cs.call k = .error e) ↔ cs.Refuses k) ∧ (cs.Refuses k → cs.after k = cs)) ∧
    (∀ id c, cs.logical.find? id = some c → c.id = id ∧
      (∃ x, cs.physical.find? c.path = some x ∧ x.bound.count id = 1) ∧
      ∀ p x, cs.physical.find? p = some x → p ≠ c.path → id ∉ x.bound) ∧
    (∀ p x, cs.physical.find? p = some x →
      (∀ id ∈ x.bound, ∃ c, cs.logical.find? id = some c) ∧
      x.bound.Pairwise (fun a b => ∃ c d, cs.logical.find? a = some c ∧
        cs.logical.find? b = some d ∧ c.Outranks d) ∧
      x.bound.head? = (cs.highest p).map (·.id)) ∧
    (∀ p c, cs.highest p = some c ↔ (cs.logical.find? c.id = some c ∧ c.path = p) ∧
      ∀ id d, cs.logical.find? id = some d → d.path = p → d ≠ c → c.Outranks d) ∧
    ((∀ p, .ensure p ∉ ks) → ∀ p, (∃ x, cs.physical.find? p = some x) ↔
      (∃ x, cs.physical.find? p = some x ∧ x.pinned) ∨
        ∃ id c, cs.logical.find? id = some c ∧ c.path = p) := by
  intro cs
  have horderly : cs.Orderly := orderly_run ks
  have hstems : cs.Stems (n.newContexts names) := stems_run hmade
  have hknown := horderly.wellFormed.known
  refine ⟨fun k => ⟨call_eq_error_iff, fun hk => ?_⟩, fun id c hc => ?_, fun p x hx => ?_,
    fun p c => horderly.highest_eq_some_iff hstems,
    fun hks p => horderly.exists_physical_iff (tended_run hks)⟩
  · obtain ⟨e, he⟩ := call_eq_error_iff.2 hk
    exact after_of_error he
  · refine ⟨horderly.wellFormed.keyed id c hc, horderly.count_bound hc, fun p x hx hne hid => ?_⟩
    obtain ⟨d, hd, hpath⟩ := hknown p id (boundIds_of_find? hx ▸ hid)
    cases hc.symm.trans hd
    exact hne hpath.symm
  · refine ⟨fun id hid => ?_, horderly.pairwise_bound hstems hx, horderly.head?_bound hx⟩
    exact (hknown p id (boundIds_of_find? hx ▸ hid)).imp fun _ hc => hc.1

/-- The later one of two contexts gets the higher rank; then the earlier one is unbound. A call for a
context that is gone fails, and so does the removal of the mount point. -/
theorem run_orderly_outranked :
    let n : Counters := {}
    let names : List (ContextId × String) := [("a", "/m"), ("b", "/m/"), ("c", "/m")]
    let made := n.newContexts names
    let ks : List Call := made.map .bind ++
      [.updateRank "b" 5, .unbind "a", .updateRank "a" 9, .removePhysical ⟨"/m"⟩]
    let cs := ({} : Contexts).run ks
    (∀ c, .bind c ∈ ks → ∃ b ∈ made, c.Amends b) ∧ made.map (·.id) = ["a", "b", "c"] ∧
      cs.Refuses (.updateRank "a" 9) ∧ (cs.highest ⟨"/m"⟩).map (·.id) = some "b" ∧
      cs.physical.find? ⟨"/m"⟩ = some ⟨false, ["b", "c"]⟩ ∧
      ∀ c, cs.highest ⟨"/m"⟩ = some c → ∀ id d, cs.logical.find? id = some d → d.path = ⟨"/m"⟩ →
        d ≠ c → c.Outranks d := by
  intro n names made ks cs
  have hmade : ∀ c, .bind c ∈ ks → ∃ b ∈ made, c.Amends b := by
    intro c hc
    exact ⟨c, by simpa [ks] using hc, rfl, rfl, rfl⟩
  obtain ⟨_, _, _, hhighest, _⟩ := run_orderly hmade
  exact ⟨hmade, by decide +kernel, show cs.logical.find? "a" = none by decide +kernel,
    by decide +kernel, by decide +kernel, fun c hc => ((hhighest _ c).1 hc).2⟩

end Contexts

end ServletContainer
