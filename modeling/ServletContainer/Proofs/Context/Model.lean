import ServletContainer.Context.Model
import ServletContainer.Proofs.Ordered

/-! What holds of the contexts that operations lead to: every context is bound at its own path, and
only there, and each list of bound contexts is in the order of priority (`Contexts.WellFormed`). Each
operation is described by the bound lists that it leaves (`boundIds`). -/
namespace ServletContainer

namespace LogicalContext

theorem precedes_total (a b : LogicalContext) : a.precedes b ∨ b.precedes a := by
  simp only [precedes, Bool.or_eq_true, Bool.and_eq_true, decide_eq_true_eq, beq_iff_eq]
  omega

theorem precedes_trans {a b c : LogicalContext} (hab : a.precedes b) (hbc : b.precedes c) :
    a.precedes c := by
  simp only [precedes, Bool.or_eq_true, Bool.and_eq_true, decide_eq_true_eq, beq_iff_eq] at *
  omega

end LogicalContext

namespace Contexts

variable {cs cs' : Contexts} {p q : ContextPath} {id : ContextId} {c : LogicalContext}

def boundIds (cs : Contexts) (p : ContextPath) : List ContextId :=
  ((cs.physical.find? p).map (·.bound)).getD []

/-- The first of two contexts may stand before the second. -/
def Prior (logical : OrdMap ContextId LogicalContext) (a b : ContextId) : Prop :=
  ∀ x y, logical.find? a = some x → logical.find? b = some y → x.precedes y

structure WellFormed (cs : Contexts) : Prop where
  keyed : ∀ id c, cs.logical.find? id = some c → c.id = id
  bound : ∀ id c, cs.logical.find? id = some c → id ∈ cs.boundIds c.path
  known : ∀ p, ∀ id ∈ cs.boundIds p, ∃ c, cs.logical.find? id = some c ∧ c.path = p
  sorted : ∀ p, (cs.boundIds p).Pairwise (Prior cs.logical)

section Sorting

variable {logical : OrdMap ContextId LogicalContext} {ids : List ContextId}

@[simp] theorem mem_byPriority : id ∈ byPriority logical ids ↔ id ∈ ids := mem_sortBy

theorem pairwise_byPriority : (byPriority logical ids).Pairwise (Prior logical) := by
  refine (pairwise_sortBy (fun a b => ?_) (fun a b c hab hbc => ?_) ids).imp ?_
  · cases logical.find? a <;> cases logical.find? b <;> simp [LogicalContext.precedes_total]
  · cases ha : logical.find? a with
    | none => rfl
    | some x =>
      cases hb : logical.find? b with
      | none => simp [ha, hb] at hab
      | some y =>
        cases hc : logical.find? c with
        | none => simp [hb, hc] at hbc
        | some z =>
          simp only [ha, hb, hc] at hab hbc ⊢
          exact LogicalContext.precedes_trans hab hbc
  · intro a b hab x y hx hy
    simpa [hx, hy] using hab

end Sorting

section Operations

theorem boundIds_modify (physical : OrdMap ContextPath Physical)
    (logical : OrdMap ContextId LogicalContext) (p q : ContextPath)
    (f : List ContextId → List ContextId) (hf : physical.find? p = none → f [] = []) :
    boundIds ⟨physical.modify p fun x => { x with bound := f x.bound }, logical⟩ q =
      if p = q then f (boundIds ⟨physical, logical⟩ q) else boundIds ⟨physical, logical⟩ q := by
  simp only [boundIds, OrdMap.find?_modify]
  by_cases h : p = q
  · subst h
    cases hp : physical.find? p with
    | none => simp [hf hp]
    | some x => simp
  · simp [h]

theorem boundIds_ensure (cs : Contexts) (p q : ContextPath) :
    (cs.ensure p).boundIds q = cs.boundIds q := by
  unfold ensure
  split
  · rfl
  · rename_i hp
    have hnone : cs.physical.find? p = none := by simpa [OrdMap.contains] using hp
    simp only [boundIds, OrdMap.find?_insert_eq]
    by_cases h : q = p
    · simp [h, hnone]
    · simp [h]

theorem boundIds_pin (cs : Contexts) (p q : ContextPath) :
    (cs.pin p).boundIds q = cs.boundIds q := by
  rw [← boundIds_ensure cs p q]
  simp only [boundIds, pin, OrdMap.find?_modify]
  by_cases h : p = q
  · simp [h, Option.map_map, Function.comp_def]
  · simp [h]

theorem logical_ensure (cs : Contexts) (p : ContextPath) : (cs.ensure p).logical = cs.logical := by
  unfold ensure
  split <;> rfl

theorem logical_pin (cs : Contexts) (p : ContextPath) : (cs.pin p).logical = cs.logical :=
  logical_ensure cs p

theorem removePhysical_ok (h : cs.removePhysical p = .ok cs') :
    cs'.logical = cs.logical ∧ ∀ q, cs'.boundIds q = cs.boundIds q := by
  unfold removePhysical at h
  split at h
  · cases h
  · rename_i x hx
    split at h
    · cases h
    · rename_i hb
      cases h
      refine ⟨rfl, fun q => ?_⟩
      simp only [boundIds, OrdMap.find?_erase_eq]
      by_cases h : p = q
      · simp [← h, hx, hb]
      · simp [h]

theorem boundIds_sortBound (cs : Contexts) (p q : ContextPath) :
    (cs.sortBound p).boundIds q =
      if p = q then byPriority cs.logical (cs.boundIds q) else cs.boundIds q :=
  boundIds_modify cs.physical cs.logical p q (byPriority cs.logical) fun _ => rfl

theorem bind_ok (h : cs.bind c = .ok cs') :
    cs.logical.find? c.id = none ∧ cs'.logical = cs.logical.insert c.id c ∧
      ∀ q, cs'.boundIds q =
        if c.path = q then byPriority cs'.logical (cs.boundIds q ++ [c.id]) else cs.boundIds q := by
  unfold bind at h
  split at h
  · cases h
  · rename_i hc
    cases h
    have hmount : (cs.ensure c.path).physical.find? c.path ≠ none := by
      unfold ensure
      split
      · rename_i hp
        exact Option.ne_none_iff_isSome.2 hp
      · simp [OrdMap.find?_insert_eq]
    have hnew : cs.logical.find? c.id = none := by simpa [OrdMap.contains] using hc
    refine ⟨hnew, congrArg (·.insert c.id c) (logical_ensure cs c.path), fun q => ?_⟩
    rw [boundIds_sortBound]
    have hm := boundIds_modify (cs.ensure c.path).physical ((cs.ensure c.path).logical.insert c.id c)
      c.path q (· ++ [c.id]) fun hnone => absurd hnone hmount
    have he : boundIds ⟨(cs.ensure c.path).physical, (cs.ensure c.path).logical.insert c.id c⟩ q =
        cs.boundIds q := boundIds_ensure cs c.path q
    rw [hm, he]
    by_cases hq : c.path = q
    · simp only [hq, if_true]
      rfl
    · simp only [hq, if_false]

theorem unbind_ok (h : cs.unbind id = .ok (c, cs')) :
    cs.logical.find? id = some c ∧ cs'.logical = cs.logical.erase id ∧
      ∀ q, cs'.boundIds q =
        if c.path = q then (cs.boundIds q).filter (· ≠ id) else cs.boundIds q := by
  unfold unbind at h
  split at h
  · cases h
  · rename_i c' hc
    cases h
    refine ⟨hc, rfl, fun q => ?_⟩
    rw [← boundIds_modify cs.physical cs.logical c.path q (fun ids => ids.filter (· ≠ id))
      fun _ => rfl]
    simp only [boundIds]
    split
    · rename_i x hx
      split
      · -- the mount point goes with its last context
        rename_i hgone
        have hnil : x.bound = [] := List.isEmpty_iff.1 (Bool.and_eq_true_iff.1 hgone).1
        rw [OrdMap.find?_erase_eq]
        by_cases hq : c.path = q
        · rw [← hq, hx, if_pos rfl, Option.map_some, hnil]
          rfl
        · rw [if_neg hq]
      · rfl
    · rfl

theorem updateRank_ok {rank : Int} (h : cs.updateRank id rank = .ok cs') :
    ∃ c, cs.logical.find? id = some c ∧
      cs'.logical = cs.logical.modify id (fun c => { c with rank := rank }) ∧
      ∀ q, cs'.boundIds q =
        if c.path = q then byPriority cs'.logical (cs.boundIds q) else cs.boundIds q := by
  unfold updateRank at h
  split at h
  · cases h
  · rename_i c hc
    cases h
    exact ⟨c, hc, rfl, boundIds_sortBound ⟨cs.physical, _⟩ c.path⟩

end Operations

namespace WellFormed

theorem empty : WellFormed {} where
  keyed _ _ h := by cases h
  bound _ _ h := by cases h
  known _ _ h := by cases h
  sorted _ := .nil

theorem of_eq (h : cs.WellFormed) (hl : cs'.logical = cs.logical)
    (hb : ∀ p, cs'.boundIds p = cs.boundIds p) : cs'.WellFormed where
  keyed := hl ▸ h.keyed
  bound id c hc := by
    rw [hb]
    exact h.bound id c (hl ▸ hc)
  known p id hid := by
    rw [hl]
    exact h.known p id (hb p ▸ hid)
  sorted p := by
    rw [hb, hl]
    exact h.sorted p

theorem sorted_congr (h : cs.WellFormed) {logical : OrdMap ContextId LogicalContext}
    (hl : ∀ id ∈ cs.boundIds p, logical.find? id = cs.logical.find? id) :
    (cs.boundIds p).Pairwise (Prior logical) :=
  (h.sorted p).imp_of_mem fun ha hb hab x y hx hy => hab x y (hl _ ha ▸ hx) (hl _ hb ▸ hy)

theorem bind (h : cs.WellFormed) (hb : cs.bind c = .ok cs') : cs'.WellFormed := by
  obtain ⟨hnew, hl, hids⟩ := bind_ok hb
  have hfind (id : ContextId) :
      cs'.logical.find? id = if id = c.id then some c else cs.logical.find? id := by
    rw [hl, OrdMap.find?_insert_eq]
  have hold {p : ContextPath} {id : ContextId} (hid : id ∈ cs.boundIds p) :
      cs'.logical.find? id = cs.logical.find? id := by
    rw [hfind, if_neg]
    rintro rfl
    obtain ⟨_, hsome, _⟩ := h.known p _ hid
    cases hnew.symm.trans hsome
  refine ⟨fun id d hd => ?_, fun id d hd => ?_, fun p id hid => ?_, fun p => ?_⟩
  · rw [hfind] at hd
    split at hd
    · rename_i he
      cases hd
      exact he.symm
    · exact h.keyed id d hd
  · rw [hfind] at hd
    rw [hids]
    split at hd
    · rename_i he
      cases hd
      simp [he]
    · have := h.bound id d hd
      split
      · simp [this]
      · exact this
  · rw [hids] at hid
    have hcase : id ∈ cs.boundIds p ∨ id = c.id ∧ c.path = p := by
      split at hid
      · rename_i hp
        simpa [hp] using hid
      · exact .inl hid
    rcases hcase with hid | ⟨rfl, hp⟩
    · rw [hold hid]
      exact h.known p id hid
    · exact ⟨c, by rw [hfind, if_pos rfl], hp⟩
  · rw [hids]
    split
    · exact pairwise_byPriority
    · exact h.sorted_congr fun _ => hold

theorem unbind (h : cs.WellFormed) (hu : cs.unbind id = .ok (c, cs')) : cs'.WellFormed := by
  obtain ⟨hc, hl, hids⟩ := unbind_ok hu
  have hfind (j : ContextId) :
      cs'.logical.find? j = if id = j then none else cs.logical.find? j := by
    rw [hl, OrdMap.find?_erase_eq]
  have hmem {p : ContextPath} {j : ContextId} :
      j ∈ cs'.boundIds p ↔ j ∈ cs.boundIds p ∧ j ≠ id := by
    rw [hids]
    split
    · simp
    · rename_i hp
      refine ⟨fun hj => ⟨hj, ?_⟩, And.left⟩
      rintro rfl
      obtain ⟨d, hd, hdp⟩ := h.known p j hj
      cases hc.symm.trans hd
      exact hp hdp
  have hsub (p : ContextPath) : (cs'.boundIds p).Sublist (cs.boundIds p) := by
    rw [hids]
    split
    · exact List.filter_sublist
    · exact .refl _
  refine ⟨fun j d hd => ?_, fun j d hd => ?_, fun p j hj => ?_, fun p => ?_⟩
  · rw [hfind] at hd
    split at hd
    · cases hd
    · exact h.keyed j d hd
  · rw [hfind] at hd
    split at hd
    · cases hd
    · rename_i hne
      exact hmem.2 ⟨h.bound j d hd, Ne.symm hne⟩
  · obtain ⟨hj, hne⟩ := hmem.1 hj
    rw [hfind, if_neg (Ne.symm hne)]
    exact h.known p j hj
  · refine ((h.sorted p).sublist (hsub p)).imp_of_mem fun ha hb hab x y hx hy => ?_
    rw [hfind, if_neg (Ne.symm (hmem.1 ha).2)] at hx
    rw [hfind, if_neg (Ne.symm (hmem.1 hb).2)] at hy
    exact hab x y hx hy

theorem updateRank (h : cs.WellFormed) {rank : Int} (hu : cs.updateRank id rank = .ok cs') :
    cs'.WellFormed := by
  obtain ⟨c, hc, hl, hids⟩ := updateRank_ok hu
  have hfind (j : ContextId) : cs'.logical.find? j =
      if id = j then (cs.logical.find? j).map (fun c => { c with rank := rank })
      else cs.logical.find? j := by
    rw [hl, OrdMap.find?_modify]
  have hfrom {j : ContextId} {d : LogicalContext} (hd : cs'.logical.find? j = some d) :
      ∃ b, cs.logical.find? j = some b ∧ d.id = b.id ∧ d.path = b.path := by
    rw [hfind] at hd
    split at hd
    · obtain ⟨b, hb, rfl⟩ := Option.map_eq_some_iff.1 hd
      exact ⟨b, hb, rfl, rfl⟩
    · exact ⟨d, hd, rfl, rfl⟩
  have hmem {p : ContextPath} {j : ContextId} : j ∈ cs'.boundIds p ↔ j ∈ cs.boundIds p := by
    rw [hids]
    split <;> simp
  refine ⟨fun j d hd => ?_, fun j d hd => ?_, fun p j hj => ?_, fun p => ?_⟩
  · obtain ⟨b, hb, hid, _⟩ := hfrom hd
    exact hid.trans (h.keyed j b hb)
  · obtain ⟨b, hb, _, hp⟩ := hfrom hd
    rw [hp]
    exact hmem.2 (h.bound j b hb)
  · obtain ⟨b, hb, hp⟩ := h.known p j (hmem.1 hj)
    rw [hfind]
    split
    · exact ⟨{ b with rank := rank }, by rw [hb]; rfl, hp⟩
    · exact ⟨b, hb, hp⟩
  · rw [hids]
    split
    · exact pairwise_byPriority
    · rename_i hp
      refine h.sorted_congr fun j hj => ?_
      rw [hfind, if_neg]
      rintro rfl
      obtain ⟨d, hd, hdp⟩ := h.known p id hj
      cases hc.symm.trans hd
      exact hp hdp

end WellFormed

section Lookup

theorem boundAt_eq (cs : Contexts) (p : ContextPath) :
    cs.boundAt p = (cs.boundIds p).filterMap cs.logical.find? := by
  unfold boundAt boundIds
  cases cs.physical.find? p <;> rfl

theorem WellFormed.mem_boundAt (h : cs.WellFormed) :
    c ∈ cs.boundAt p ↔ cs.find? c.id = some c ∧ c.path = p := by
  rw [boundAt_eq, List.mem_filterMap]
  constructor
  · rintro ⟨id, hid, hc⟩
    obtain ⟨d, hd, hp⟩ := h.known p id hid
    cases hc.symm.trans hd
    exact ⟨h.keyed id c hc ▸ hc, hp⟩
  · rintro ⟨hc, rfl⟩
    exact ⟨c.id, h.bound c.id c hc, hc⟩

theorem WellFormed.mem_boundAt_of_find? (h : cs.WellFormed) (hc : cs.find? id = some c) :
    c ∈ cs.boundAt c.path := by
  refine h.mem_boundAt.2 ⟨?_, rfl⟩
  rw [h.keyed id c hc]
  exact hc

theorem WellFormed.highest_eq (h : cs.WellFormed) (p : ContextPath) :
    cs.highest p = (cs.boundAt p).head? := by
  rw [boundAt_eq]
  unfold highest
  cases hp : cs.physical.find? p with
  | none => simp [boundIds, hp]
  | some x =>
    have hids : cs.boundIds p = x.bound := by simp [boundIds, hp]
    rw [hids]
    cases hx : x.bound with
    | nil => simp [hx]
    | cons id ids =>
      obtain ⟨c, hc, _⟩ := h.known p id (by simp [hids, hx])
      simp [hx, hc]

theorem WellFormed.pairwise_boundAt (h : cs.WellFormed) (p : ContextPath) :
    (cs.boundAt p).Pairwise fun a b => a.precedes b := by
  rw [boundAt_eq, List.pairwise_filterMap]
  exact (h.sorted p).imp fun hab x hx y hy => hab x y hx hy

theorem WellFormed.head?_precedes (h : cs.WellFormed) (hc : (cs.boundAt p).head? = some c) :
    ∀ d ∈ cs.boundAt p, c.precedes d := by
  have hsorted := h.pairwise_boundAt p
  cases hb : cs.boundAt p with
  | nil => simp
  | cons b bs =>
    rw [hb] at hc hsorted
    cases hc
    intro d hd
    rcases List.mem_cons.1 hd with rfl | hd
    · exact or_self_iff.1 (d.precedes_total d)
    · exact (List.pairwise_cons.1 hsorted).1 d hd

theorem WellFormed.nodup_values (h : cs.WellFormed) : (cs.logical.values.map (·.id)).Nodup := by
  have hkeys : cs.logical.values.map (·.id) = cs.logical.keys := by
    rw [OrdMap.values, OrdMap.keys, List.map_map]
    exact List.map_congr_left fun e he => h.keyed e.1 e.2 (OrdMap.mem_entries_iff.1 he)
  exact hkeys ▸ cs.logical.nodup_keys

theorem WellFormed.mem_values_iff (h : cs.WellFormed) {c : LogicalContext} :
    c ∈ cs.logical.values ∧ c.id = id ↔ cs.find? id = some c := by
  rw [OrdMap.mem_values_iff]
  constructor
  · rintro ⟨⟨i, hc⟩, rfl⟩
    rw [h.keyed i c hc]
    exact hc
  · exact fun hc => ⟨⟨id, hc⟩, h.keyed id c hc⟩

theorem WellFormed.filter_values (h : cs.WellFormed) (p : LogicalContext → Bool)
    (id : ContextId) :
    (cs.logical.values.filter p).filter (fun c => c.id = id) = ((cs.find? id).filter p).toList := by
  have hperm : ((cs.logical.values.filter p).filter (fun c => c.id = id)).Perm
      ((cs.find? id).filter p).toList := by
    refine (List.perm_ext_iff_of_nodup ((h.nodup_values.of_map.filter _).filter _)
      (by cases (cs.find? id).filter p <;> simp)).2 fun c => ?_
    simp only [List.mem_filter, decide_eq_true_eq, Option.mem_toList, Option.filter_eq_some_iff,
      ← h.mem_values_iff]
    tauto
  cases hfound : (cs.find? id).filter p with
  | none =>
    rw [hfound] at hperm
    exact hperm.eq_nil
  | some c =>
    rw [hfound] at hperm
    exact hperm.eq_singleton

end Lookup

end Contexts

end ServletContainer
