import ServletContainer.Proofs.Arbitration.Greedy
import ServletContainer.Proofs.Arbitration.Region

/-! The outcome of arbitration. Arbitrating everything gives the stable enabling
(`stable_resolveAll`), and arbitrating the region of some seeds gives its candidates the same sets of
mounts (`find?_resolve`). -/
namespace ServletContainer

def Element.catchAll (id : ElementId) (targets : List ContextId := []) : Element where
  id
  name := "echo"
  patterns := .urls [.fallback]
  targets
  rank := 0
  serviceId := 0
  dynamic := false
  owner := none
  init := ∅
  details := .servlet (.given .echo)

theorem Candidate.keys_ne_nil_iff {c : Candidate} : c.keys ≠ [] ↔ c.physical ≠ [] := by
  constructor
  · intro hk
    obtain ⟨k, hk⟩ := List.exists_mem_of_ne_nil _ hk
    exact Candidate.physical_ne_nil hk
  · intro hp
    obtain ⟨p, hp⟩ := List.exists_mem_of_ne_nil _ hp
    exact (c.claim_ne_nil hp : c.claim .strict p ≠ [])

namespace Resolver

variable {r : Resolver} {seeds : List SlotKey} {c : Candidate} {id : ElementId}

def region (r : Resolver) (seeds : List SlotKey) : List Candidate :=
  r.candidates.filter fun c => (r.walk seeds).region.contains c.id

theorem enabled_resolve :
    (r.resolve seeds).enabled = (arbitrate r.policy (r.region seeds)).enabled := rfl

theorem mem_region (hids : (r.candidates.map Candidate.id).Nodup) :
    c ∈ r.region seeds ↔ c ∈ r.candidates ∧ c.IsReached r.candidates seeds := by
  simp only [region, List.mem_filter, List.contains_iff_mem]
  exact and_congr_right fun hc => mem_region_walk hids hc

theorem nodup_region (hids : (r.candidates.map Candidate.id).Nodup) :
    ((r.region seeds).map Candidate.id).Nodup :=
  hids.sublist (List.filter_sublist.map Candidate.id)

theorem find?_resolve_isSome (hids : (r.candidates.map Candidate.id).Nodup) :
    ((r.resolve seeds).enabled.find? id).isSome ↔
      ∃ c ∈ r.candidates, c.IsReached r.candidates seeds ∧ c.id = id := by
  simp only [enabled_resolve, find?_arbitrate_isSome, mem_region hids, and_assoc]

theorem stable_resolve (hids : (r.candidates.map Candidate.id).Nodup) :
    Stable r.policy (r.region seeds) (enabling (r.resolve seeds).enabled) :=
  stable_arbitrate (nodup_region hids)

theorem mem_region_of_shares (hids : (r.candidates.map Candidate.id).Nodup)
    (hc : c ∈ r.region seeds) {b : Candidate} (hb : b ∈ r.candidates) (hs : b.Shares c) :
    b ∈ r.region seeds := by
  obtain ⟨k, hkb, hkc⟩ := hs
  obtain ⟨hc, l, hl, hr⟩ := (mem_region hids).1 hc
  exact (mem_region hids).2 ⟨hb, k, hkb, hr.follow hc hl hkc⟩

theorem mem_knownKeys {k : SlotKey} : k ∈ r.knownKeys ↔ ∃ c ∈ r.candidates, k ∈ c.keys := by
  rw [knownKeys, mem_foldl_collect, List.mem_flatMap]
  simp

theorem isReached_knownKeys (hc : c ∈ r.candidates) :
    c.IsReached r.candidates r.knownKeys ↔ c.physical ≠ [] := by
  rw [← Candidate.keys_ne_nil_iff]
  constructor
  · rintro ⟨k, hk, _⟩
    exact List.ne_nil_of_mem hk
  · intro hne
    obtain ⟨k, hk⟩ := List.exists_mem_of_ne_nil _ hne
    exact ⟨k, hk, .seed (mem_knownKeys.2 ⟨c, hc, hk⟩)⟩

theorem find?_resolveAll_isSome (hids : (r.candidates.map Candidate.id).Nodup)
    (hc : c ∈ r.candidates) :
    (r.resolveAll.enabled.find? c.id).isSome ↔ c.physical ≠ [] := by
  rw [resolveAll, find?_resolve_isSome hids, ← isReached_knownKeys hc]
  constructor
  · rintro ⟨b, hb, ht, hbc⟩
    exact List.inj_on_of_nodup_map hids hb hc hbc ▸ ht
  · exact fun ht => ⟨c, hc, ht, rfl⟩

theorem stable_resolveAll (hids : (r.candidates.map Candidate.id).Nodup) :
    Stable r.policy r.candidates (enabling r.resolveAll.enabled) := by
  have hin {b : Candidate} : b ∈ r.region r.knownKeys ↔ b ∈ r.candidates ∧ b.physical ≠ [] :=
    (mem_region hids).trans (and_congr_right isReached_knownKeys)
  intro c hc
  by_cases hp : c.physical = []
  · have hnone : r.resolveAll.enabled.find? c.id = none := by
      simpa [hp] using find?_resolveAll_isSome hids hc
    intro p
    simp [enabling, hnone, hp]
  · refine (stable_resolve hids c (hin.2 ⟨hc, hp⟩)).congr (fun b hs _ => ?_)
      (fun _ _ _ _ _ => Iff.rfl) fun _ => Iff.rfl
    obtain ⟨k, hk, _⟩ := hs
    rw [hin]
    exact and_iff_left (Candidate.physical_ne_nil hk)

theorem exists_of_enabling (hids : (r.candidates.map Candidate.id).Nodup) {p : ContextPath}
    (h : enabling r.resolveAll.enabled id p) : ∃ c ∈ r.candidates, c.id = id ∧ p ∈ c.physical := by
  have hsome : (r.resolveAll.enabled.find? id).isSome := by
    by_contra hnone
    rw [Option.not_isSome_iff_eq_none] at hnone
    simp [enabling, hnone] at h
  obtain ⟨c, hc, _, rfl⟩ := (find?_resolve_isSome hids).1 hsome
  exact ⟨c, hc, rfl, ((stable_resolveAll hids c hc p).1 h).1⟩

/-- A candidate of the region is enabled where arbitrating everything enables it. -/
theorem find?_resolve (hids : (r.candidates.map Candidate.id).Nodup) (hc : c ∈ r.candidates)
    (ht : c.IsReached r.candidates seeds) :
    (r.resolve seeds).enabled.find? c.id = r.resolveAll.enabled.find? c.id := by
  have hall : Stable r.policy (r.region seeds) (enabling r.resolveAll.enabled) :=
    (stable_resolveAll hids).restrict (fun b hb => ((mem_region hids).1 hb).1)
      fun _ hb _ ha hs => mem_region_of_shares hids hb ha hs
  refine find?_eq_of_enabling ?_ ((stable_resolve hids).unique hall c ((mem_region hids).2 ⟨hc, ht⟩))
  exact iff_of_true ((find?_resolve_isSome hids).2 ⟨c, hc, ht, rfl⟩)
    ((find?_resolveAll_isSome hids hc).2 ht.physical_ne_nil)

theorem find?_resolveAll_congr {s : Resolver} (hr : (r.candidates.map Candidate.id).Nodup)
    (hs : (s.candidates.map Candidate.id).Nodup) (hcr : c ∈ r.candidates) (hcs : c ∈ s.candidates)
    (h : ∀ p, enabling r.resolveAll.enabled c.id p ↔ enabling s.resolveAll.enabled c.id p) :
    r.resolveAll.enabled.find? c.id = s.resolveAll.enabled.find? c.id :=
  find?_eq_of_enabling ((find?_resolveAll_isSome hr hcr).trans (find?_resolveAll_isSome hs hcs).symm) h

end Resolver

/-- Arbitration computes the one stable enabling. A slot has one holder at most, who is enabled; who
loses a claim loses it to a better candidate that is enabled; and the strict policy enables a
candidate in all of its mounts or in none. -/
theorem resolveAll_unique_stable (policy : Policy) (cs : List Candidate)
    (hids : (cs.map Candidate.id).Nodup) :
    let E := enabling (Resolver.mk policy cs).resolveAll.enabled
    Stable policy cs E ∧
      (∀ F, Stable policy cs F → ∀ c ∈ cs, ∀ p, F c.id p ↔ E c.id p) ∧
      (policy = .strict → ∀ c ∈ cs, (∀ p, E c.id p ↔ p ∈ c.physical) ∨ ∀ p, ¬ E c.id p) ∧
      (∀ a ∈ cs, ∀ b ∈ cs, ∀ k, E.Holds a k → E.Holds b k → a = b) ∧
      ∀ c ∈ cs, ∀ p ∈ c.physical, ¬ E c.id p → Blocked policy cs E c p := by
  intro E
  have hE : Stable policy cs E := Resolver.stable_resolveAll (r := ⟨policy, cs⟩) hids
  refine ⟨hE, fun F hF => hF.unique hE, ?_, ?_, ?_⟩
  · rintro rfl c hc
    exact (hE c hc).all_or_none
  · intro a ha b hb k hak hbk
    exact hE.holder_unique hids ha hb hak hbk
  · intro c hc p hp
    exact (hE c hc).blocked hp

theorem resolveAll_unique_stable_pair :
    let c : Candidate := { element := .catchAll 1, physical := [.root] }
    let d : Candidate := { element := .catchAll 2, physical := [.root] }
    ([c, d].map Candidate.id).Nodup ∧
      Blocked .strict [c, d] (enabling (Resolver.mk .strict [c, d]).resolveAll.enabled) d .root := by
  intro c d
  have hids : ([c, d].map Candidate.id).Nodup := by decide
  exact ⟨hids, (resolveAll_unique_stable .strict [c, d] hids).2.2.2.2 d (by simp) .root
    (by decide) (by unfold enabling; decide)⟩

end ServletContainer
