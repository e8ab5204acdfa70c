import ServletContainer.Proofs.Arbitration.Listing
import ServletContainer.Proofs.Arbitration.Regional

/-! What arbitration does not look at: the order of the candidates, the order and the number of the seeds,
and the order in which slots happen to be gone through. The region and what is marked in it depend on
which candidates and seeds there are (`Reached.mono`); all that is given out in an order is sorted by an
order that tells any two apart, so that the whole outcome is the same (`resolve_order_free`). -/
namespace ServletContainer

theorem Reached.mono {cs ds : List Candidate} {ss ts : List SlotKey} {k : SlotKey}
    (h : Reached cs ss k) (hcs : ∀ c ∈ cs, c ∈ ds) (hss : ∀ l ∈ ss, l ∈ ts) : Reached ds ts k := by
  induction h with
  | seed hk => exact .seed (hss _ hk)
  | follow _ hc hk hl ih => exact ih.follow (hcs _ hc) hk hl

namespace Resolver

variable {policy : Policy} {cs ds : List Candidate} {ss ts listed : List SlotKey} {k : SlotKey}
  {h : Holders}

section Listing

def gather (cs : List Candidate) (h : Holders) (listed : List SlotKey) : OrdMap SlotKey Group :=
  (listed.filter fun k => cs.any (·.keys.contains k)).foldl
    (fun m k => m.insert k (groupOf cs h k)) ∅

def groupMap (cs : List Candidate) (h : Holders) (ks : List SlotKey) (hks : ks.Nodup) :
    OrdMap SlotKey Group where
  entries := (sortBy SlotKey.le ks).map fun k => (k, groupOf cs h k)
  ascending := (SlotKey.pairwise_sortBy_lt hks).map _ fun _ _ hlt => hlt

theorem find?_groupMap {ks : List SlotKey} (hks : ks.Nodup) :
    (groupMap cs h ks hks).find? k = if k ∈ ks then some (groupOf cs h k) else none := by
  refine Option.ext fun g => ?_
  rw [← OrdMap.mem_entries_iff]
  by_cases hk : k ∈ ks <;> simp [groupMap, hk, eq_comm]

/-- In whatever order slots are listed, the map of their groups is the same. -/
theorem gather_eq (hlisted : listed.Nodup) :
    gather cs h listed = groupMap cs h (listed.filter fun k => cs.any (·.keys.contains k))
      (hlisted.filter _) := by
  refine OrdMap.ext_find? fun k => ?_
  rw [find?_groupMap, gather]
  split
  · rename_i hk
    refine OrdMap.find?_foldl_insert_of_mem (f := id) ?_ hk
    rw [List.map_id]
    exact hlisted.filter _
  · rename_i hk
    exact OrdMap.find?_foldl_insert_of_ne fun l hl he => hk (he ▸ hl)

/-- Arbitrates the region of the seeds, with the marked slots gone through as listed when their groups are
put together. -/
def resolveListed (r : Resolver) (seeds listed : List SlotKey) : Resolution :=
  let claims := arbitrate r.policy (r.region seeds)
  { enabled := claims.enabled
    groups := (gather r.candidates claims.holders listed).values
    iterations := (r.walk seeds).steps }

theorem resolveListed_eq (r : Resolver) (hlisted : listed.Perm (r.walk ss).visited) :
    r.resolveListed ss listed = r.resolve ss := by
  have hnodup : listed.Nodup := hlisted.nodup_iff.2 (r.counted_walk ss).nodup
  have hgroups : (gather r.candidates (arbitrate r.policy (r.region ss)).holders listed).values =
      (r.resolve ss).groups := by
    rw [gather_eq hnodup, OrdMap.values, groupMap, List.map_map,
      SlotKey.sortBy_eq_of_perm (hlisted.filter _)]
    exact (r.groups_resolve ss).symm
  rw [resolveListed, hgroups]
  rfl

end Listing

section Permuting

/-- Among candidates of different numbers the order of preference is the same however they came, also if
some came more than once. -/
theorem sortBy_precedes_eq_of_perm {xs ys : List Candidate} (hids : (cs.map Candidate.id).Nodup)
    (hxs : xs ⊆ cs) (hperm : xs.Perm ys) :
    sortBy Candidate.precedes xs = sortBy Candidate.precedes ys :=
  TieBreak.sortBy_eq_of_perm (f := fun c : Candidate => c.element.tieBreak) hperm
    fun _ ha _ hb => List.inj_on_of_nodup_map hids (hxs ha) (hxs hb)

theorem arbitrate_eq_of_perm (hids : (cs.map Candidate.id).Nodup) (hperm : ds.Perm cs) :
    arbitrate policy ds = arbitrate policy cs := by
  rw [arbitrate, arbitrate, sortBy_precedes_eq_of_perm hids hperm.subset hperm]

theorem reached_congr (hperm : ds.Perm cs) (hseeds : ∀ k, k ∈ ts ↔ k ∈ ss) :
    Reached ds ts k ↔ Reached cs ss k :=
  ⟨fun h => h.mono (fun _ => hperm.mem_iff.1) fun l => (hseeds l).1,
    fun h => h.mono (fun _ => hperm.mem_iff.2) fun l => (hseeds l).2⟩

theorem nodup_of_perm (hids : (cs.map Candidate.id).Nodup) (hperm : ds.Perm cs) :
    (ds.map Candidate.id).Nodup :=
  (hperm.map Candidate.id).nodup_iff.2 hids

theorem visited_perm (hids : (cs.map Candidate.id).Nodup) (hperm : ds.Perm cs)
    (hseeds : ∀ k, k ∈ ts ↔ k ∈ ss) :
    ((Resolver.mk policy ds).walk ts).visited.Perm ((Resolver.mk policy cs).walk ss).visited := by
  refine (List.perm_ext_iff_of_nodup (counted_walk _ _).nodup (counted_walk _ _).nodup).2 fun k => ?_
  rw [mem_visited_walk (nodup_of_perm hids hperm), mem_visited_walk hids]
  exact reached_congr hperm hseeds

theorem region_perm (hids : (cs.map Candidate.id).Nodup) (hperm : ds.Perm cs)
    (hseeds : ∀ k, k ∈ ts ↔ k ∈ ss) :
    ((Resolver.mk policy ds).region ts).Perm ((Resolver.mk policy cs).region ss) := by
  have hds := nodup_of_perm hids hperm
  have hnodup : ((Resolver.mk policy cs).region ss).Nodup := .of_map Candidate.id (nodup_region hids)
  have hnodup' : ((Resolver.mk policy ds).region ts).Nodup := .of_map Candidate.id (nodup_region hds)
  refine (List.perm_ext_iff_of_nodup hnodup' hnodup).2 fun c => ?_
  rw [mem_region hds, mem_region hids]
  exact and_congr hperm.mem_iff (exists_congr fun k => and_congr_right fun _ =>
    reached_congr hperm hseeds)

theorem mem_competitors {c : Candidate} : c ∈ competitors cs k ↔ c ∈ cs ∧ k ∈ c.keys := by
  simp [competitors]

theorem groupOf_eq_of_perm (hids : (cs.map Candidate.id).Nodup) (hperm : ds.Perm cs) :
    groupOf ds h k = groupOf cs h k := by
  have hlosers : ((competitors ds k).filter fun c => some c.id ≠ h.lookup k).Perm
      ((competitors cs k).filter fun c => some c.id ≠ h.lookup k) :=
    (hperm.flatMap_right _).filter _
  have hsub : ((competitors ds k).filter fun c => some c.id ≠ h.lookup k) ⊆ cs := fun c hc =>
    hperm.subset (mem_competitors.1 (List.mem_filter.1 hc).1).1
  simp only [groupOf, sortBy_precedes_eq_of_perm hids hsub hlosers]

theorem gather_eq_of_perm (hids : (cs.map Candidate.id).Nodup) (hperm : ds.Perm cs) :
    gather ds h listed = gather cs h listed := by
  have hgroup : groupOf ds h = groupOf cs h := funext fun _ => groupOf_eq_of_perm hids hperm
  have hknown (k : SlotKey) : ds.any (·.keys.contains k) = cs.any (·.keys.contains k) := by
    rw [Bool.eq_iff_iff]
    simp only [List.any_eq_true, hperm.mem_iff]
  simp only [gather, hgroup, hknown]

/-- The outcome depends on which candidates and which seeds there are. -/
theorem resolve_eq_of_perm (hids : (cs.map Candidate.id).Nodup) (hperm : ds.Perm cs)
    (hseeds : ∀ k, k ∈ ts ↔ k ∈ ss) :
    (Resolver.mk policy ds).resolve ts = (Resolver.mk policy cs).resolve ss := by
  have hclaims : arbitrate policy ((Resolver.mk policy ds).region ts) =
      arbitrate policy ((Resolver.mk policy cs).region ss) :=
    arbitrate_eq_of_perm (nodup_region hids) (region_perm hids hperm hseeds)
  have hvisited : ((Resolver.mk policy ds).walk ts).visited.Perm ((Resolver.mk policy cs).walk ss).visited :=
    visited_perm hids hperm hseeds
  have hsteps : ((Resolver.mk policy ds).walk ts).steps = ((Resolver.mk policy cs).walk ss).steps :=
    (iterations_resolve (nodup_of_perm hids hperm)).trans
      (hvisited.length_eq.trans (iterations_resolve hids).symm)
  rw [← resolveListed_eq _ (.refl _), ← resolveListed_eq _ hvisited]
  simp only [resolveListed, hclaims, gather_eq_of_perm hids hperm, hsteps]

end Permuting

end Resolver

/-- The whole outcome of arbitration is the same for the same candidates in another order, for the same
seeds in another order or repeated, and for every order in which the known slots and the marked ones are
gone through. -/
theorem resolve_order_free (policy : Policy) {cs ds : List Candidate}
    (hids : (cs.map Candidate.id).Nodup) (hperm : ds.Perm cs) :
    let r : Resolver := ⟨policy, cs⟩
    let s : Resolver := ⟨policy, ds⟩
    (∀ ss ts : List SlotKey, (∀ k, k ∈ ts ↔ k ∈ ss) →
      s.resolve ts = r.resolve ss ∧
        ∀ listed, listed.Perm (s.walk ts).visited → s.resolveListed ts listed = r.resolve ss) ∧
      s.resolveAll = r.resolveAll ∧
      ∀ ks listed, ks.Perm s.knownKeys → listed.Perm (s.walk ks).visited →
        s.resolveListed ks listed = r.resolveAll := by
  intro r s
  have hseeds {ss ts : List SlotKey} (h : ∀ k, k ∈ ts ↔ k ∈ ss) : s.resolve ts = r.resolve ss :=
    Resolver.resolve_eq_of_perm hids hperm h
  have hknown (k : SlotKey) : k ∈ s.knownKeys ↔ k ∈ r.knownKeys := by
    rw [Resolver.mem_knownKeys, Resolver.mem_knownKeys]
    exact exists_congr fun c => and_congr_left fun _ => hperm.mem_iff
  refine ⟨fun ss ts h => ⟨hseeds h, fun listed hlisted => ?_⟩, hseeds hknown,
    fun ks listed hks hlisted => ?_⟩
  · rw [s.resolveListed_eq hlisted, hseeds h]
  · rw [s.resolveListed_eq hlisted, Resolver.resolveAll]
    exact hseeds fun k => hks.mem_iff.trans (hknown k)

/-- Three servlets that all take the same slots, presented the other way round, with a seed repeated and
the marked slots gone through backwards. -/
theorem resolve_order_free_reversed :
    let a : Candidate := { element := .catchAll 1, physical := [.root] }
    let b : Candidate := { element := .catchAll 2, physical := [.root] }
    let c : Candidate := { element := { Element.catchAll 3 with rank := 1 }, physical := [.root] }
    let r : Resolver := ⟨.strict, [a, b, c]⟩
    let s : Resolver := ⟨.strict, [c, b, a]⟩
    let name := a.nameKey .root
    let pattern : SlotKey := ⟨.root, .servlet, .pattern .fallback⟩
    (r.candidates.map Candidate.id).Nodup ∧ s.candidates.Perm r.candidates ∧
      s.resolveListed [pattern, name, pattern] (s.walk [pattern, name, pattern]).visited.reverse =
        r.resolve [name, pattern] ∧
      (r.resolve [name, pattern]).groups = [⟨name, some 3, [1, 2]⟩, ⟨pattern, some 3, [1, 2]⟩] := by
  intro a b c r s name pattern
  have hids : (r.candidates.map Candidate.id).Nodup := by decide
  have hperm : s.candidates.Perm r.candidates := List.reverse_perm [a, b, c]
  have hseeds (k : SlotKey) : k ∈ [pattern, name, pattern] ↔ k ∈ [name, pattern] := by
    simp only [List.mem_cons, List.not_mem_nil, or_false]
    tauto
  obtain ⟨hfree, _⟩ := resolve_order_free .strict hids hperm
  exact ⟨hids, hperm, (hfree _ _ hseeds).2 _ (List.reverse_perm _), by decide +kernel⟩

end ServletContainer
