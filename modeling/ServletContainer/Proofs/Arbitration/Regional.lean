import Mathlib.Data.List.Dedup
import Mathlib.Data.List.Perm.Subperm
import ServletContainer.Proofs.Arbitration.Outcome

/-! Arbitrating a region. The walk marks every slot at most once and processes each that it has marked
(`Walk.Counted`), so that its steps are as many as there are slots to be reached. A slot of the region
has the same holder as when everything is arbitrated (`Resolver.lookup_holders`), and hence the same
group; with that the region comes out as a part of the whole (`resolve_eq_part`). -/
namespace ServletContainer

namespace Walk

variable {cs es : List Candidate} {ks queue : List SlotKey} {w : Walk} {k : SlotKey}

/-- No slot is marked twice, and those that were marked have been processed or wait in the queue. -/
structure Counted (w : Walk) : Prop where
  nodup : w.visited.Nodup
  length_eq : w.steps + w.queue.length = w.visited.length

theorem Counted.discover (h : w.Counted) (k : SlotKey) : (w.discover k).Counted := by
  by_cases hk : k ∈ w.visited
  · simpa [Walk.discover, hk] using h
  · refine ⟨?_, ?_⟩
    · simpa [Walk.discover, hk] using h.nodup
    · have hlength := h.length_eq
      simp only [Walk.discover, List.contains_iff_mem, hk, if_false, List.length_append,
        List.length_cons, List.length_nil]
      omega

theorem Counted.foldl_discover (h : w.Counted) (ks : List SlotKey) :
    (ks.foldl Walk.discover w).Counted := by
  induction ks generalizing w with
  | nil => exact h
  | cons k ks ih => exact ih (h.discover k)

theorem Counted.enter (h : w.Counted) (c : Candidate) : (w.enter c).Counted := by
  have hnoted : Counted { w with region := c.id :: w.region } := ⟨h.nodup, h.length_eq⟩
  unfold Walk.enter
  split
  · exact h
  · exact hnoted.foldl_discover c.keys

theorem Counted.foldl_enter (h : w.Counted) (es : List Candidate) :
    (es.foldl Walk.enter w).Counted := by
  induction es generalizing w with
  | nil => exact h
  | cons e es ih => exact ih (h.enter e)

theorem Counted.process (h : w.Counted) (hq : w.queue = k :: queue) :
    (w.process cs k queue).Counted := by
  have hlength := h.length_eq
  rw [hq, List.length_cons] at hlength
  have htaken : Counted { w with queue := queue, steps := w.steps + 1 } :=
    ⟨h.nodup, by simp only; omega⟩
  exact htaken.foldl_enter _

theorem Counted.run (h : w.Counted) (cs : List Candidate) (fuel : Nat) : (w.run cs fuel).Counted := by
  induction fuel generalizing w with
  | zero => exact h
  | succ fuel ih =>
    cases hq : w.queue with
    | nil =>
      have hrun : w.run cs (fuel + 1) = w := by rw [Walk.run, hq]
      rw [hrun]
      exact h
    | cons k queue =>
      rw [run_cons fuel hq]
      exact ih (h.process hq)

end Walk

namespace Resolver

variable {r : Resolver} {seeds : List SlotKey} {k : SlotKey} {id : ElementId} {g : Group}

section Steps

theorem counted_walk (r : Resolver) (seeds : List SlotKey) : (r.walk seeds).Counted :=
  (Walk.Counted.foldl_discover ⟨List.nodup_nil, rfl⟩ seeds).run _ _

/-- The walk takes one step for each slot that it marks. -/
theorem iterations_resolve (hids : (r.candidates.map Candidate.id).Nodup) :
    (r.resolve seeds).iterations = (r.walk seeds).visited.length := by
  have hlength := (r.counted_walk seeds).length_eq
  rw [(r.walk_spec hids seeds).2] at hlength
  exact hlength

theorem known_or_seed (h : Reached r.candidates seeds k) :
    k ∈ r.knownKeys ∨ k ∈ seeds.filter fun k => !r.knownKeys.contains k := by
  by_cases hk : k ∈ r.knownKeys
  · exact .inl hk
  · refine .inr (List.mem_filter.2 ⟨?_, by simpa using hk⟩)
    cases h with
    | seed hs => exact hs
    | follow _ hc _ hl => exact absurd (mem_knownKeys.2 ⟨_, hc, hl⟩) hk

theorem length_visited_le (hids : (r.candidates.map Candidate.id).Nodup) :
    (r.walk seeds).visited.length ≤
      r.totalKeys + (seeds.filter fun k => !r.knownKeys.contains k).dedup.length := by
  rw [totalKeys, ← List.length_append]
  refine (List.subperm_of_subset (r.counted_walk seeds).nodup fun k hk => ?_).length_le
  rw [List.mem_append, List.mem_dedup]
  exact known_or_seed ((mem_visited_walk hids).1 hk)

end Steps

section Holding

theorem lookup_holders (hids : (r.candidates.map Candidate.id).Nodup)
    (hk : Reached r.candidates seeds k) :
    (arbitrate r.policy (r.region seeds)).holders.lookup k = some id ↔
      ∃ c ∈ r.candidates, c.id = id ∧ (enabling r.resolveAll.enabled).Holds c k := by
  rw [(settled_arbitrate (nodup_region hids)).holder]
  have hheld {c : Candidate} (hc : c ∈ r.candidates) (hkc : k ∈ c.keys) :
      enabling (r.resolve seeds).enabled c.id k.physical ↔
        enabling r.resolveAll.enabled c.id k.physical := by
    rw [enabling, enabling, find?_resolve hids hc ⟨k, hkc, hk⟩]
  constructor
  · rintro ⟨c, hc, hid, hkc, hE⟩
    have hmem := ((mem_region hids).1 (mem_sortBy.1 hc)).1
    exact ⟨c, hmem, hid, hkc, (hheld hmem hkc).1 hE⟩
  · rintro ⟨c, hc, hid, hkc, hE⟩
    have hreached : c.IsReached r.candidates seeds := ⟨k, hkc, hk⟩
    exact ⟨c, mem_sortBy.2 ((mem_region hids).2 ⟨hc, hreached⟩), hid, hkc, (hheld hc hkc).2 hE⟩

def holders (r : Resolver) : Holders := (arbitrate r.policy (r.region r.knownKeys)).holders

theorem groupOf_region (hids : (r.candidates.map Candidate.id).Nodup) (hknown : k ∈ r.knownKeys)
    (hk : Reached r.candidates seeds k) :
    groupOf r.candidates (arbitrate r.policy (r.region seeds)).holders k =
      groupOf r.candidates r.holders k := by
  have hlookup : (arbitrate r.policy (r.region seeds)).holders.lookup k = r.holders.lookup k := by
    refine Option.ext fun id => ?_
    rw [holders, lookup_holders hids hk, lookup_holders hids (.seed hknown)]
  rw [groupOf, groupOf, hlookup]

def listing (r : Resolver) (seeds : List SlotKey) : List SlotKey :=
  sortBy SlotKey.le ((r.walk seeds).visited.filter fun k => r.candidates.any (·.keys.contains k))

theorem mem_listing (hids : (r.candidates.map Candidate.id).Nodup) :
    k ∈ r.listing seeds ↔ Reached r.candidates seeds k ∧ k ∈ r.knownKeys := by
  simp [listing, mem_visited_walk hids, mem_knownKeys]

theorem nodup_listing (r : Resolver) (seeds : List SlotKey) : (r.listing seeds).Nodup :=
  (sortBy_perm _ _).nodup_iff.2 ((r.counted_walk seeds).nodup.filter _)

theorem groups_resolve (r : Resolver) (seeds : List SlotKey) :
    (r.resolve seeds).groups = (r.listing seeds).map
      (groupOf r.candidates (arbitrate r.policy (r.region seeds)).holders) := rfl

theorem keys_groups_resolve (r : Resolver) (seeds : List SlotKey) :
    (r.resolve seeds).groups.map (·.key) = r.listing seeds := by
  rw [groups_resolve, List.map_map]
  exact List.map_id _

theorem mem_groups_resolve (hids : (r.candidates.map Candidate.id).Nodup) :
    g ∈ (r.resolve seeds).groups ↔
      ∃ k ∈ r.knownKeys, Reached r.candidates seeds k ∧ groupOf r.candidates r.holders k = g := by
  simp only [groups_resolve, List.mem_map, mem_listing hids]
  constructor
  · rintro ⟨k, ⟨hk, hknown⟩, rfl⟩
    exact ⟨k, hknown, hk, (groupOf_region hids hknown hk).symm⟩
  · rintro ⟨k, hknown, hk, rfl⟩
    exact ⟨k, ⟨hk, hknown⟩, groupOf_region hids hknown hk⟩

end Holding

end Resolver

/-- Arbitrating the region of some seeds comes to an end and gives a part of what arbitrating everything
gives: the candidates with a slot that shared candidates connect with a seed, enabled where they are
anyway, and the groups of the slots so connected, each once. Its steps are as many as there are slots
connected with a seed, seeds included. -/
theorem resolve_eq_part (r : Resolver) (hids : (r.candidates.map Candidate.id).Nodup)
    (seeds : List SlotKey) :
    let part := r.resolve seeds
    let whole := r.resolveAll
    (r.walk seeds).queue = [] ∧
      (∀ id, (part.enabled.find? id).isSome ↔
        ∃ c ∈ r.candidates, c.IsReached r.candidates seeds ∧ c.id = id) ∧
      (∀ c ∈ r.candidates, c.IsReached r.candidates seeds →
        part.enabled.find? c.id = whole.enabled.find? c.id) ∧
      (∀ g, g ∈ part.groups ↔ g ∈ whole.groups ∧ Reached r.candidates seeds g.key) ∧
      (part.groups.map (·.key)).Nodup ∧
      (∀ k, k ∈ part.groups.map (·.key) ↔
        Reached r.candidates seeds k ∧ ∃ c ∈ r.candidates, k ∈ c.keys) ∧
      (∃ ks : List SlotKey, ks.Nodup ∧ (∀ k, k ∈ ks ↔ Reached r.candidates seeds k) ∧
        part.iterations = ks.length) ∧
      part.iterations ≤
        r.totalKeys + (seeds.filter fun k => !r.knownKeys.contains k).dedup.length := by
  intro part whole
  refine ⟨(r.walk_spec hids seeds).2, fun id => Resolver.find?_resolve_isSome hids,
    fun c hc => Resolver.find?_resolve hids hc, fun g => ?_, ?_, fun k => ?_,
    ⟨_, (r.counted_walk seeds).nodup, fun k => Resolver.mem_visited_walk hids, Resolver.iterations_resolve hids⟩, ?_⟩
  · have hwhole : g ∈ whole.groups ↔
        ∃ k ∈ r.knownKeys, Reached r.candidates r.knownKeys k ∧
          Resolver.groupOf r.candidates r.holders k = g := Resolver.mem_groups_resolve hids
    rw [Resolver.mem_groups_resolve hids, hwhole]
    constructor
    · rintro ⟨k, hknown, hk, rfl⟩
      exact ⟨⟨k, hknown, .seed hknown, rfl⟩, hk⟩
    · rintro ⟨⟨k, hknown, _, rfl⟩, hk⟩
      exact ⟨k, hknown, hk, rfl⟩
  · rw [Resolver.keys_groups_resolve]
    exact r.nodup_listing seeds
  · rw [Resolver.keys_groups_resolve, Resolver.mem_listing hids, Resolver.mem_knownKeys]
  · rw [Resolver.iterations_resolve hids]
    exact Resolver.length_visited_le hids

/-- From the name of a servlet the walk comes to one that shares a pattern with it, and not to one in
another mount; a seed that nobody takes counts as well. -/
theorem resolve_eq_part_neighbours :
    let a : Candidate := { element := .catchAll 1, physical := [.root] }
    let b : Candidate := { element := { Element.catchAll 2 with name := "other" }, physical := [.root] }
    let c : Candidate := { element := .catchAll 3, physical := [⟨"/m"⟩] }
    let r : Resolver := ⟨.strict, [a, b, c]⟩
    let seeds := [a.nameKey .root, a.nameKey ⟨"/n"⟩]
    (r.candidates.map Candidate.id).Nodup ∧
      (r.resolve seeds).enabled.keys = [1, 2] ∧
      (r.resolve seeds).enabled.find? b.id = r.resolveAll.enabled.find? b.id ∧
      (r.resolve seeds).iterations = 4 ∧ (r.resolve seeds).iterations ≤ r.totalKeys + 1 := by
  intro a b c r seeds
  have hids : (r.candidates.map Candidate.id).Nodup := by decide
  have hb : b.IsReached r.candidates seeds := by
    have hname : Reached r.candidates seeds (a.nameKey .root) := .seed (by decide)
    have hpattern : Reached r.candidates seeds ⟨.root, .servlet, .pattern .fallback⟩ :=
      hname.follow (c := a) (by decide) (by decide) (by decide)
    exact ⟨_, by decide, hpattern⟩
  obtain ⟨_, _, hpaths, _, _, _, _, hbound⟩ := resolve_eq_part r hids seeds
  exact ⟨hids, by decide +kernel, hpaths b (by decide) hb, by decide +kernel, hbound⟩

end ServletContainer
