import ServletContainer.Proofs.Arbitration.Stable

/-! Giving out the claims best first. Each claim is described by what it changes
(`enabled_claim`, `lookup_claim`); after the claims of better and better candidates the enabling is
stable for them, and a slot is held exactly by the candidate that is enabled with it
(`settled_arbitrate`). -/
namespace ServletContainer

namespace Holders

variable {h : Holders} {ks : List SlotKey} {k : SlotKey} {id j : ElementId}

theorem free_iff : h.free ks ↔ ∀ k ∈ ks, h.lookup k = none := by
  simp [free]

theorem lookup_take : (h.take ks id).lookup k = if k ∈ ks then some id else h.lookup k := by
  induction ks with
  | nil => rfl
  | cons l ks ih =>
    have hl : (h.take (l :: ks) id).lookup k =
        if k == l then some id else (h.take ks id).lookup k := by
      rw [take, List.map_cons, List.cons_append, List.lookup_cons]
      cases k == l <;> rfl
    rw [hl, ih]
    by_cases hk : k = l <;> simp [hk]

theorem lookup_take_of_free (hf : h.free ks) :
    (h.take ks id).lookup k = some j ↔ k ∈ ks ∧ j = id ∨ h.lookup k = some j := by
  rw [lookup_take]
  by_cases hk : k ∈ ks
  · simp [hk, free_iff.1 hf k hk, eq_comm]
  · simp [hk]

end Holders

def enabling (m : OrdMap ElementId (OrdSet ContextPath)) : Enabling :=
  fun id p => p ∈ ((m.find? id).getD ∅).elems

theorem find?_eq_of_enabling {m n : OrdMap ElementId (OrdSet ContextPath)} {id : ElementId}
    (hsome : (m.find? id).isSome ↔ (n.find? id).isSome)
    (hmem : ∀ p, enabling m id p ↔ enabling n id p) : m.find? id = n.find? id := by
  cases hm : m.find? id with
  | none =>
    rw [hm] at hsome
    exact (Option.not_isSome_iff_eq_none.1 fun hn => nomatch hsome.2 hn).symm
  | some s =>
    rw [hm] at hsome
    obtain ⟨t, ht⟩ := Option.isSome_iff_exists.1 (hsome.1 rfl)
    simp only [enabling, hm, ht, Option.getD_some] at hmem
    rw [ht, OrdSet.ext_mem hmem]

namespace Claims

variable {policy : Policy} {cl : Claims} {c : Candidate} {k : SlotKey} {p q : ContextPath}
  {id : ElementId}

section PerContext

variable {h : Holders} {won : OrdSet ContextPath} {ps : List ContextPath}

theorem mem_claimIn :
    p ∈ (claimIn c (h, won) q).2.elems ↔ p ∈ won.elems ∨ p = q ∧ h.free (c.keysIn q) := by
  unfold claimIn
  by_cases hf : h.free (c.keysIn q)
  · simp [hf, or_comm]
  · simp [hf]

theorem lookup_claimIn :
    (claimIn c (h, won) q).1.lookup k = some id ↔
      h.lookup k = some id ∨ k ∈ c.keysIn q ∧ h.free (c.keysIn q) ∧ id = c.id := by
  unfold claimIn
  by_cases hf : h.free (c.keysIn q)
  · simp [hf, Holders.lookup_take_of_free, or_comm]
  · simp [hf]

theorem free_of_free_claimIn (hf : (claimIn c (h, won) q).1.free (c.keysIn p)) :
    h.free (c.keysIn p) := by
  simp only [Holders.free_iff, Option.eq_none_iff_forall_ne_some] at hf ⊢
  exact fun k hk id hid => hf k hk id (lookup_claimIn.2 (.inl hid))

theorem free_claimIn (hpq : p ≠ q) :
    (claimIn c (h, won) q).1.free (c.keysIn p) ↔ h.free (c.keysIn p) := by
  refine ⟨free_of_free_claimIn, fun hf => ?_⟩
  simp only [Holders.free_iff, Option.eq_none_iff_forall_ne_some] at hf ⊢
  intro k hk id hid
  rcases lookup_claimIn.1 hid with hold | ⟨hkq, _⟩
  · exact hf k hk id hold
  · exact hpq ((Candidate.mem_keysIn.1 hk).2.symm.trans (Candidate.mem_keysIn.1 hkq).2)

theorem mem_foldl_claimIn :
    p ∈ (ps.foldl (claimIn c) (h, won)).2.elems ↔
      p ∈ won.elems ∨ p ∈ ps ∧ h.free (c.keysIn p) := by
  induction ps generalizing h won with
  | nil => simp
  | cons q ps ih =>
    rw [List.foldl_cons, ← Prod.mk.eta (p := claimIn c (h, won) q), ih, mem_claimIn]
    by_cases hpq : p = q
    · subst hpq
      have hfree : (claimIn c (h, won) p).1.free (c.keysIn p) → h.free (c.keysIn p) :=
        free_of_free_claimIn
      simp only [List.mem_cons, true_or, true_and]
      tauto
    · simp [hpq, free_claimIn hpq]

theorem lookup_foldl_claimIn :
    (ps.foldl (claimIn c) (h, won)).1.lookup k = some id ↔
      h.lookup k = some id ∨
        k ∈ c.keys ∧ (k.physical ∈ ps ∧ h.free (c.keysIn k.physical)) ∧ id = c.id := by
  induction ps generalizing h won with
  | nil => simp
  | cons q ps ih =>
    rw [List.foldl_cons, ← Prod.mk.eta (p := claimIn c (h, won) q), ih, lookup_claimIn,
      Candidate.mem_keysIn]
    by_cases hq : k.physical = q
    · subst hq
      have hfree : (claimIn c (h, won) k.physical).1.free (c.keysIn k.physical) →
          h.free (c.keysIn k.physical) := free_of_free_claimIn
      simp only [List.mem_cons, true_or, true_and, and_true]
      tauto
    · simp [hq, free_claimIn hq]

end PerContext

theorem find?_enabled_claim (hid : id ≠ c.id) :
    (cl.claim policy c).enabled.find? id = cl.enabled.find? id := by
  simp [claim, OrdMap.find?_insert_eq, hid]

theorem find?_enabled_claim_isSome :
    ((cl.claim policy c).enabled.find? id).isSome ↔
      (cl.enabled.find? id).isSome ∨ id = c.id := by
  by_cases hid : id = c.id <;> simp [claim, OrdMap.find?_insert_eq, hid]

theorem enabled_claim : enabling (cl.claim policy c).enabled c.id p ↔
    p ∈ c.physical ∧ c.claim policy p ≠ [] ∧ cl.holders.free (c.claim policy p) := by
  cases policy with
  | strict =>
    by_cases hk : c.keys = []
    · simp [enabling, claim, OrdMap.find?_insert_eq, Candidate.claim, hk]
    · by_cases hf : cl.holders.free c.keys <;>
        simp [enabling, claim, OrdMap.find?_insert_eq, Candidate.claim, hk, hf]
  | perContext =>
    have hne (hp : p ∈ c.physical) : c.claim .perContext p ≠ [] := c.claim_ne_nil hp
    simp only [enabling, claim, OrdMap.find?_insert_eq, if_true, Option.getD_some, Candidate.claim,
      mem_foldl_claimIn, OrdSet.elems_empty, List.not_mem_nil, false_or]
    exact ⟨fun h => ⟨h.1, hne h.1, h.2⟩, fun h => ⟨h.1, h.2.2⟩⟩

theorem holders_claim_strict : (cl.claim .strict c).holders =
    if cl.holders.free c.keys then cl.holders.take c.keys c.id else cl.holders := by
  by_cases hk : c.keys = []
  · simp [claim, hk, Holders.take]
  · by_cases hf : cl.holders.free c.keys <;> simp [claim, hk, hf]

theorem lookup_claim : (cl.claim policy c).holders.lookup k = some id ↔
    cl.holders.lookup k = some id ∨
      (enabling (cl.claim policy c).enabled).Holds c k ∧ id = c.id := by
  rw [Enabling.Holds, enabled_claim]
  have hp (hk : k ∈ c.keys) : k.physical ∈ c.physical := (Candidate.mem_keys.1 hk).1
  cases policy with
  | strict =>
    have hne (hk : k ∈ c.keys) : c.keys ≠ [] := List.ne_nil_of_mem hk
    rw [holders_claim_strict]
    by_cases hf : cl.holders.free c.keys
    · rw [if_pos hf, Holders.lookup_take_of_free hf, Candidate.claim]
      tauto
    · simp [hf, Candidate.claim]
  | perContext =>
    have hne (hk : k ∈ c.keys) : c.keysIn k.physical ≠ [] :=
      List.ne_nil_of_mem (Candidate.mem_keysIn.2 ⟨hk, rfl⟩)
    have hh : (cl.claim .perContext c).holders =
        (c.physical.foldl (claimIn c) (cl.holders, ∅)).1 := rfl
    rw [hh, lookup_foldl_claimIn, Candidate.claim]
    tauto

end Claims

/-- The claims of the candidates `cs` have led to a stable enabling, and a slot is held by the
candidate that is enabled with it. -/
structure Settled (policy : Policy) (cs : List Candidate) (cl : Claims) : Prop where
  stable : Stable policy cs (enabling cl.enabled)
  holder : ∀ k id, cl.holders.lookup k = some id ↔
    ∃ b ∈ cs, b.id = id ∧ (enabling cl.enabled).Holds b k

section Run

variable {policy : Policy} {cs : List Candidate} {cl : Claims} {c : Candidate}

theorem enabling_claim_of_ne {id : ElementId} (hid : id ≠ c.id) (p : ContextPath) :
    enabling (cl.claim policy c).enabled id p ↔ enabling cl.enabled id p := by
  rw [enabling, enabling, Claims.find?_enabled_claim hid]

theorem holds_claim_of_ne {b : Candidate} {k : SlotKey} (hid : b.id ≠ c.id) :
    (enabling (cl.claim policy c).enabled).Holds b k ↔ (enabling cl.enabled).Holds b k :=
  and_congr_right fun _ => enabling_claim_of_ne hid k.physical

theorem Settled.free_iff (h : Settled policy cs cl) {ks : List SlotKey} :
    cl.holders.free ks ↔ ∀ k ∈ ks, ∀ b ∈ cs, ¬ (enabling cl.enabled).Holds b k := by
  simp only [Holders.free_iff, Option.eq_none_iff_forall_ne_some, Ne, h.holder]
  exact ⟨fun hf k hk b hb hbk => hf k hk b.id ⟨b, hb, rfl, hbk⟩,
    fun hf k hk _ ⟨b, hb, _, hbk⟩ => hf k hk b hb hbk⟩

theorem Settled.stableAt_claim (h : Settled policy cs cl)
    (hb : ∀ b ∈ cs, b.Better c ∧ b.id ≠ c.id) :
    StableAt policy (cs ++ [c]) (enabling (cl.claim policy c).enabled) c := by
  intro p
  rw [Claims.enabled_claim, h.free_iff, Blocked]
  refine and_congr_right fun _ => and_congr_right fun _ => ⟨?_, ?_⟩
  · rintro hf ⟨a, ha, hac, k, hk, hak⟩
    have hacs : a ∈ cs := by
      rcases List.mem_append.1 ha with ha | ha
      · exact ha
      · exact absurd (List.mem_singleton.1 ha ▸ hac) (Candidate.Better.irrefl c)
    exact hf k hk a hacs ((holds_claim_of_ne (hb a hacs).2).1 hak)
  · intro hnot k hk a ha hak
    exact hnot ⟨a, List.mem_append_left _ ha, (hb a ha).1, k, hk,
      (holds_claim_of_ne (hb a ha).2).2 hak⟩

theorem Settled.claim (h : Settled policy cs cl) (hb : ∀ b ∈ cs, b.Better c ∧ b.id ≠ c.id) :
    Settled policy (cs ++ [c]) (cl.claim policy c) := by
  refine ⟨fun b hbm => ?_, fun k id => ?_⟩
  · rcases List.mem_append.1 hbm with hbc | hbc
    · have hold (a : Candidate) (ha : a ∈ cs) (p : ContextPath) :
          enabling cl.enabled a.id p ↔ enabling (cl.claim policy c).enabled a.id p :=
        (enabling_claim_of_ne (hb a ha).2 p).symm
      -- the newcomer is not better, so that it blocks none of the others
      refine (h.stable b hbc).congr (fun a _ hab => ?_) (fun a ha _ _ => hold a ha) (hold b hbc)
      have hac : a ≠ c := fun he => (hb b hbc).1.asymm (he ▸ hab)
      simp [hac]
    · obtain rfl := List.mem_singleton.1 hbc
      exact h.stableAt_claim hb
  · rw [Claims.lookup_claim, h.holder]
    constructor
    · rintro (⟨b, hbc, rfl, hbk⟩ | ⟨hck, rfl⟩)
      · exact ⟨b, List.mem_append_left _ hbc, rfl, (holds_claim_of_ne (hb b hbc).2).2 hbk⟩
      · exact ⟨c, by simp, rfl, hck⟩
    · rintro ⟨b, hbm, rfl, hbk⟩
      rcases List.mem_append.1 hbm with hbc | hbc
      · exact .inl ⟨b, hbc, rfl, (holds_claim_of_ne (hb b hbc).2).1 hbk⟩
      · obtain rfl := List.mem_singleton.1 hbc
        exact .inr ⟨hbk, rfl⟩

theorem settled_foldl (h : cs.Pairwise fun a b => a.Better b ∧ a.id ≠ b.id) :
    Settled policy cs (cs.foldl (Claims.claim policy) {}) := by
  induction cs using List.reverseRecOn with
  | nil => exact ⟨by simp [Stable], by simp⟩
  | append_singleton cs c ih =>
    obtain ⟨hcs, _, hc⟩ := List.pairwise_append.1 h
    rw [List.foldl_append]
    exact (ih hcs).claim fun b hb => hc b hb c (List.mem_singleton_self c)

theorem pairwise_sortBy_precedes (hids : (cs.map Candidate.id).Nodup) :
    (sortBy Candidate.precedes cs).Pairwise fun a b => a.Better b ∧ a.id ≠ b.id := by
  have hlt : (sortBy Candidate.precedes cs).Pairwise Candidate.Better :=
    TieBreak.pairwise_sortBy (f := fun c : Candidate => c.element.tieBreak) hids
  have hne : (sortBy Candidate.precedes cs).Pairwise fun a b => a.id ≠ b.id :=
    List.pairwise_map.1 (((sortBy_perm _ cs).map Candidate.id).nodup_iff.2 hids)
  exact hlt.and hne

theorem settled_arbitrate (hids : (cs.map Candidate.id).Nodup) :
    Settled policy (sortBy Candidate.precedes cs) (Resolver.arbitrate policy cs) :=
  settled_foldl (pairwise_sortBy_precedes hids)

/-- Arbitration finds the stable enabling. -/
theorem stable_arbitrate (hids : (cs.map Candidate.id).Nodup) :
    Stable policy cs (enabling (Resolver.arbitrate policy cs).enabled) :=
  (settled_arbitrate hids).stable.restrict (fun _ => mem_sortBy.2)
    fun _ _ _ hb _ => mem_sortBy.1 hb

theorem find?_enabled_foldl_isSome {id : ElementId} :
    ((cs.foldl (Claims.claim policy) cl).enabled.find? id).isSome ↔
      (cl.enabled.find? id).isSome ∨ ∃ c ∈ cs, c.id = id := by
  induction cs generalizing cl with
  | nil => simp
  | cons c cs ih =>
    rw [List.foldl_cons, ih, Claims.find?_enabled_claim_isSome]
    simp only [List.exists_mem_cons_iff, or_assoc, eq_comm (a := id)]

theorem find?_arbitrate_isSome {id : ElementId} :
    ((Resolver.arbitrate policy cs).enabled.find? id).isSome ↔ ∃ c ∈ cs, c.id = id := by
  rw [Resolver.arbitrate, find?_enabled_foldl_isSome]
  simp only [mem_sortBy]
  exact or_iff_right (by simp)

end Run

end ServletContainer
