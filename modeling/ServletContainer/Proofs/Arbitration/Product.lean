import ServletContainer.Proofs.Arbitration.Outcome

/-! Arbitration mount by mount. If each mount is arbitrated on its own, what is enabled in one of them is
what is enabled when the candidates are cut down to that mount (`enabling_atMount`): the claims to
different mounts do not meet, so that the enabling cut down to a mount is stable for the candidates cut
down to it. With one mount for each candidate there is nothing left that the policies could tell apart
(`Resolver.resolve_eq_of_isSole`). -/
namespace ServletContainer

namespace Candidate

variable {b c : Candidate} {p q : ContextPath} {k : SlotKey}

def cutTo (p : ContextPath) (c : Candidate) : Candidate :=
  { element := c.element, physical := c.physical.filter (· = p) }

@[simp] theorem id_cutTo : (c.cutTo p).id = c.id := rfl

@[simp] theorem mem_physical_cutTo : q ∈ (c.cutTo p).physical ↔ q ∈ c.physical ∧ q = p := by
  simp [cutTo]

theorem better_cutTo : (b.cutTo p).Better (c.cutTo p) ↔ b.Better c := Iff.rfl

theorem mem_keys_cutTo : k ∈ (c.cutTo p).keys ↔ k ∈ c.keys ∧ k.physical = p := by
  rw [mem_keys, mem_keys, mem_physical_cutTo, and_right_comm]
  rfl

theorem mem_claim_cutTo {policy : Policy} :
    k ∈ (c.cutTo p).claim policy p ↔ k ∈ c.claim .perContext p := by
  cases policy with
  | strict => exact mem_keys_cutTo.trans mem_keysIn.symm
  | perContext =>
    simp only [claim, mem_keysIn, mem_keys_cutTo, and_assoc, and_self]

end Candidate

def Enabling.cutTo (p : ContextPath) (E : Enabling) : Enabling := fun id q => E id q ∧ q = p

def atMount (p : ContextPath) (cs : List Candidate) : List Candidate :=
  (cs.filter fun c => c.physical.contains p).map (Candidate.cutTo p)

section Cutting

variable {cs : List Candidate} {p q : ContextPath} {E : Enabling} {c : Candidate} {id : ElementId}

theorem mem_atMount : c ∈ atMount p cs ↔ ∃ b ∈ cs, p ∈ b.physical ∧ b.cutTo p = c := by
  simp [atMount, and_assoc]

theorem nodup_atMount (hids : (cs.map Candidate.id).Nodup) :
    ((atMount p cs).map Candidate.id).Nodup := by
  have hmap : (atMount p cs).map Candidate.id =
      (cs.filter fun c => c.physical.contains p).map Candidate.id := by
    rw [atMount, List.map_map]
    rfl
  rw [hmap]
  exact hids.sublist (List.filter_sublist.map Candidate.id)

theorem blocked_cutTo (policy : Policy) :
    Blocked policy (atMount p cs) (E.cutTo p) (c.cutTo p) p ↔
      Blocked .perContext cs E c p := by
  constructor
  · rintro ⟨b', hb', hbetter, k, hk, hkb, hE, _⟩
    obtain ⟨b, hb, _, rfl⟩ := mem_atMount.1 hb'
    exact ⟨b, hb, Candidate.better_cutTo.1 hbetter, k, Candidate.mem_claim_cutTo.1 hk,
      (Candidate.mem_keys_cutTo.1 hkb).1, hE⟩
  · rintro ⟨b, hb, hbetter, k, hk, hkb, hE⟩
    have hkp : k.physical = p := (Candidate.mem_keysIn.1 hk).2
    have hbp : p ∈ b.physical := hkp ▸ (Candidate.mem_keys.1 hkb).1
    exact ⟨b.cutTo p, mem_atMount.2 ⟨b, hb, hbp, rfl⟩, Candidate.better_cutTo.2 hbetter, k,
      Candidate.mem_claim_cutTo.2 hk, Candidate.mem_keys_cutTo.2 ⟨hkb, hkp⟩, hE, hkp⟩

theorem Stable.cutTo (hE : Stable .perContext cs E) (policy : Policy) :
    Stable policy (atMount p cs) (E.cutTo p) := by
  intro c' hc' q
  obtain ⟨c, hc, hcp, rfl⟩ := mem_atMount.1 hc'
  rw [Candidate.mem_physical_cutTo, Enabling.cutTo, Candidate.id_cutTo]
  by_cases hq : q = p
  · subst hq
    have hclaim : (c.cutTo q).claim policy q ≠ [] :=
      Candidate.claim_ne_nil (Candidate.mem_physical_cutTo.2 ⟨hcp, rfl⟩)
    rw [hE c hc q, and_iff_right (Candidate.claim_ne_nil hcp), and_iff_right hclaim, blocked_cutTo]
    simp only [and_true]
  · simp [hq]

theorem enabling_atMount (policy : Policy) (hids : (cs.map Candidate.id).Nodup) :
    enabling (Resolver.mk policy (atMount p cs)).resolveAll.enabled id q ↔
      enabling (Resolver.mk .perContext cs).resolveAll.enabled id p ∧ q = p := by
  have hcut := nodup_atMount (p := p) hids
  have hE : Stable .perContext cs _ := Resolver.stable_resolveAll (r := ⟨.perContext, cs⟩) hids
  have hF : Stable policy (atMount p cs) _ :=
    Resolver.stable_resolveAll (r := ⟨policy, atMount p cs⟩) hcut
  have hagree {c : Candidate} (hc : c ∈ atMount p cs) := hF.unique (hE.cutTo policy) c hc q
  constructor
  · intro h
    obtain ⟨c, hc, rfl, _⟩ := Resolver.exists_of_enabling (r := ⟨policy, atMount p cs⟩) hcut h
    obtain ⟨hq, rfl⟩ := (hagree hc).1 h
    exact ⟨hq, rfl⟩
  · rintro ⟨h, rfl⟩
    obtain ⟨c, hc, rfl, hcp⟩ := Resolver.exists_of_enabling (r := ⟨.perContext, cs⟩) hids h
    exact (hagree (mem_atMount.2 ⟨c, hc, hcp, rfl⟩)).2 ⟨h, rfl⟩

end Cutting

section Sole

def Candidate.IsSole (c : Candidate) : Prop := ∀ p ∈ c.physical, ∀ q ∈ c.physical, p = q

theorem Holders.not_free_take {h : Holders} {ks : List SlotKey} {id : ElementId} (hks : ks ≠ []) :
    ¬ (h.take ks id).free ks := by
  obtain ⟨k, hk⟩ := List.exists_mem_of_ne_nil ks hks
  intro hf
  have hnone := Holders.free_iff.1 hf k hk
  rw [Holders.lookup_take, if_pos hk] at hnone
  cases hnone

namespace Claims

variable {c : Candidate} {p : ContextPath} {ps : List ContextPath} {h : Holders}
  {won : OrdSet ContextPath}

theorem foldl_claimIn_of_not_free (hps : ∀ q ∈ ps, q = p) (hf : ¬ h.free (c.keysIn p)) :
    ps.foldl (claimIn c) (h, won) = (h, won) := by
  refine foldl_eq_self fun q hq => ?_
  simp [claimIn, hps q hq, hf]

theorem foldl_claimIn_sole (hps : ∀ q ∈ ps, q = p) (hne : c.keysIn p ≠ []) :
    (p :: ps).foldl (claimIn c) (h, won) = claimIn c (h, won) p := by
  rw [List.foldl_cons]
  by_cases hf : h.free (c.keysIn p)
  · have hclaim : claimIn c (h, won) p = (h.take (c.keysIn p) c.id, won.insert p) := by
      simp [claimIn, hf]
    rw [hclaim]
    exact foldl_claimIn_of_not_free hps (Holders.not_free_take hne)
  · have hclaim : claimIn c (h, won) p = (h, won) := by simp [claimIn, hf]
    rw [hclaim]
    exact foldl_claimIn_of_not_free hps hf

theorem claim_eq_of_isSole (hc : c.IsSole) (cl : Claims) :
    cl.claim .strict c = cl.claim .perContext c := by
  cases hp : c.physical with
  | nil =>
    have hkeys : c.keys = [] := by
      by_contra hk
      exact Candidate.keys_ne_nil_iff.1 hk hp
    simp [claim, hkeys, hp]
  | cons p ps =>
    have hps : ∀ q ∈ ps, q = p := fun q hq => hc q (by simp [hp, hq]) p (by simp [hp])
    have hkeys : c.keysIn p = c.keys := by
      refine List.filter_eq_self.2 fun k hk => ?_
      simpa using hc k.physical (Candidate.mem_keys.1 hk).1 p (by simp [hp])
    have hne : c.keys ≠ [] := Candidate.keys_ne_nil_iff.2 (by simp [hp])
    have hwon : OrdSet.ofList (p :: ps) = (∅ : OrdSet ContextPath).insert p :=
      OrdSet.ext_mem fun q => by
        simp only [OrdSet.mem_ofList, OrdSet.mem_insert, List.mem_cons, OrdSet.elems_empty,
          List.not_mem_nil, or_false]
        exact or_iff_left_of_imp (hps q)
    by_cases hf : cl.holders.free c.keys <;>
      simp [claim, hp, foldl_claimIn_sole hps (hkeys ▸ hne), claimIn, hkeys, hne, hf, hwon]

end Claims

theorem Resolver.arbitrate_eq_of_isSole {cs : List Candidate} (hcs : ∀ c ∈ cs, c.IsSole) :
    Resolver.arbitrate .strict cs = Resolver.arbitrate .perContext cs :=
  List.foldl_ext _ _ _ fun cl c hc => Claims.claim_eq_of_isSole (hcs c (mem_sortBy.1 hc)) cl

/-- Candidates with one mount each are arbitrated in the same way under both policies. -/
theorem Resolver.resolve_eq_of_isSole {cs : List Candidate} (hcs : ∀ c ∈ cs, c.IsSole)
    (seeds : List SlotKey) :
    (Resolver.mk .strict cs).resolve seeds = (Resolver.mk .perContext cs).resolve seeds := by
  have hregion : ∀ c ∈ (Resolver.mk .strict cs).region seeds, c.IsSole :=
    fun c hc => hcs c (List.mem_filter.1 hc).1
  have hclaims := arbitrate_eq_of_isSole hregion
  simp only [region] at hclaims
  simp only [resolve, hclaims]
  rfl

end Sole

/-- Mount by mount, arbitration gives in each mount what it gives when all candidates are cut down to that
mount, whatever they are mapped to elsewhere. And if no candidate is mapped to more than one mount, both
policies have the same outcome. -/
theorem resolveAll_product {cs : List Candidate} (hids : (cs.map Candidate.id).Nodup) :
    (∀ p id, enabling (Resolver.mk .perContext cs).resolveAll.enabled id p ↔
        enabling (Resolver.mk .perContext (atMount p cs)).resolveAll.enabled id p) ∧
      (∀ policy p id q, enabling (Resolver.mk policy (atMount p cs)).resolveAll.enabled id q ↔
        enabling (Resolver.mk .perContext cs).resolveAll.enabled id p ∧ q = p) ∧
      ((∀ c ∈ cs, c.IsSole) →
        (Resolver.mk .strict cs).resolveAll = (Resolver.mk .perContext cs).resolveAll) := by
  refine ⟨fun p id => ?_, fun policy p id q => enabling_atMount policy hids,
    fun hcs => Resolver.resolve_eq_of_isSole hcs _⟩
  rw [enabling_atMount .perContext hids, and_iff_left rfl]

/-- A servlet in two mounts that loses one of them keeps the other, as that mount alone would have it, while
the strict policy takes both from it. Cut down to the mount that is lost, the policies agree. -/
theorem resolveAll_product_shadowed :
    let wide : Candidate := { element := .catchAll 1, physical := [⟨"/a"⟩, ⟨"/b"⟩] }
    let strong : Candidate :=
      { element := { Element.catchAll 2 with rank := 5 }, physical := [⟨"/b"⟩] }
    let cs := [wide, strong]
    (cs.map Candidate.id).Nodup ∧ ((atMount ⟨"/b"⟩ cs).map Candidate.id).Nodup ∧
      enabling (Resolver.mk .perContext (atMount ⟨"/a"⟩ cs)).resolveAll.enabled 1 ⟨"/a"⟩ ∧
      ¬ enabling (Resolver.mk .perContext (atMount ⟨"/b"⟩ cs)).resolveAll.enabled 1 ⟨"/b"⟩ ∧
      ¬ enabling (Resolver.mk .strict cs).resolveAll.enabled 1 ⟨"/a"⟩ ∧
      (∀ c ∈ atMount ⟨"/b"⟩ cs, c.IsSole) ∧
      (Resolver.mk .strict (atMount ⟨"/b"⟩ cs)).resolveAll =
        (Resolver.mk .perContext (atMount ⟨"/b"⟩ cs)).resolveAll := by
  intro wide strong cs
  have hids : (cs.map Candidate.id).Nodup := by decide
  have hcut : ((atMount ⟨"/b"⟩ cs).map Candidate.id).Nodup := by decide
  have hsole : ∀ c ∈ atMount ⟨"/b"⟩ cs, c.IsSole := by unfold Candidate.IsSole; decide
  obtain ⟨hmount, _⟩ := resolveAll_product hids
  have hkept : enabling (Resolver.mk .perContext cs).resolveAll.enabled 1 ⟨"/a"⟩ := by
    unfold enabling; decide +kernel
  have hlost : ¬ enabling (Resolver.mk .perContext cs).resolveAll.enabled 1 ⟨"/b"⟩ := by
    unfold enabling; decide +kernel
  have hstrict : ¬ enabling (Resolver.mk .strict cs).resolveAll.enabled 1 ⟨"/a"⟩ := by
    unfold enabling; decide +kernel
  exact ⟨hids, hcut, (hmount _ 1).1 hkept, (hmount _ 1).not.1 hlost, hstrict, hsole,
    (resolveAll_product hcut).2.2 hsole⟩

end ServletContainer
