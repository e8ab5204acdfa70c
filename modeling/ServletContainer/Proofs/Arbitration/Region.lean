import ServletContainer.Arbitration.Resolver
import ServletContainer.Proofs.Arbitration.Stable

/-! The walk through a region. It marks a slot before it queues it, so that between two slots what
was marked is reachable, and what was marked and is no longer queued has its candidates in the region
(`Walk.Invariant`). The fuel covers the queue and all slots not yet marked, and the walk ends with
an empty queue (`Walk.run_spec`): it has then marked the slots that are reachable, and no others. -/
namespace ServletContainer

/-- The slots to which shared candidates lead from the seeds. -/
inductive Reached (cs : List Candidate) (seeds : List SlotKey) : SlotKey → Prop where
  | seed {k : SlotKey} : k ∈ seeds → Reached cs seeds k
  | follow {c : Candidate} {k l : SlotKey} :
      Reached cs seeds k → c ∈ cs → k ∈ c.keys → l ∈ c.keys → Reached cs seeds l

/-- Some slot of the candidate is reached, and with it all of them. -/
def Candidate.IsReached (cs : List Candidate) (seeds : List SlotKey) (c : Candidate) : Prop :=
  ∃ k ∈ c.keys, Reached cs seeds k

theorem Candidate.IsReached.physical_ne_nil {cs : List Candidate} {seeds : List SlotKey}
    {c : Candidate} (h : c.IsReached cs seeds) : c.physical ≠ [] := by
  obtain ⟨k, hk, _⟩ := h
  exact Candidate.physical_ne_nil hk

namespace Walk

variable {cs es : List Candidate} {seeds ks : List SlotKey} {w : Walk} {c : Candidate}
  {k : SlotKey} {id : ElementId}

section Marking

theorem mem_visited_discover : k ∈ (w.discover l).visited ↔ k ∈ w.visited ∨ k = l := by
  by_cases hl : l ∈ w.visited
  · simp only [discover, List.contains_iff_mem, hl, if_true]
    exact ⟨.inl, fun h => h.elim id fun he => he ▸ hl⟩
  · simp [discover, hl, or_comm]

theorem mem_queue_discover :
    k ∈ (w.discover l).queue ↔ k ∈ w.queue ∨ k = l ∧ k ∉ w.visited := by
  by_cases hl : l ∈ w.visited
  · simp only [discover, List.contains_iff_mem, hl, if_true]
    exact ⟨.inl, fun h => h.elim id fun he => absurd (he.1 ▸ hl) he.2⟩
  · simp only [discover, List.contains_iff_mem, hl, if_false, List.mem_append, List.mem_singleton]
    exact or_congr_right ⟨fun he => ⟨he, he ▸ hl⟩, And.left⟩

@[simp] theorem region_discover : (w.discover k).region = w.region := by
  unfold discover
  split <;> rfl

theorem mem_visited_foldl_discover :
    k ∈ (ks.foldl discover w).visited ↔ k ∈ w.visited ∨ k ∈ ks := by
  induction ks generalizing w with
  | nil => simp
  | cons l ks ih => rw [List.foldl_cons, ih, mem_visited_discover, List.mem_cons, or_assoc]

theorem mem_queue_foldl_discover :
    k ∈ (ks.foldl discover w).queue ↔ k ∈ w.queue ∨ k ∈ ks ∧ k ∉ w.visited := by
  induction ks generalizing w with
  | nil => simp
  | cons l ks ih =>
    rw [List.foldl_cons, ih, mem_queue_discover, mem_visited_discover, List.mem_cons]
    tauto

@[simp] theorem region_foldl_discover : (ks.foldl discover w).region = w.region := by
  induction ks generalizing w with
  | nil => rfl
  | cons l ks ih => rw [List.foldl_cons, ih, region_discover]

end Marking

section Entering

def Closed (cs : List Candidate) (w : Walk) : Prop :=
  ∀ c ∈ cs, c.id ∈ w.region → ∀ k ∈ c.keys, k ∈ w.visited

theorem mem_region_enter : id ∈ (w.enter c).region ↔ id ∈ w.region ∨ id = c.id := by
  by_cases hc : c.id ∈ w.region
  · simp only [enter, List.contains_iff_mem, hc, if_true]
    exact ⟨.inl, fun h => h.elim (fun hid => hid) fun he => he ▸ hc⟩
  · simp [enter, hc, or_comm]

theorem mem_visited_enter (hw : Closed cs w) (hc : c ∈ cs) :
    k ∈ (w.enter c).visited ↔ k ∈ w.visited ∨ k ∈ c.keys := by
  by_cases hr : c.id ∈ w.region
  · simp only [enter, List.contains_iff_mem, hr, if_true]
    exact ⟨.inl, fun h => h.elim (fun hk => hk) (hw c hc hr k)⟩
  · simp [enter, hr, mem_visited_foldl_discover]

theorem mem_queue_enter (hw : Closed cs w) (hc : c ∈ cs) :
    k ∈ (w.enter c).queue ↔ k ∈ w.queue ∨ k ∈ c.keys ∧ k ∉ w.visited := by
  by_cases hr : c.id ∈ w.region
  · simp only [enter, List.contains_iff_mem, hr, if_true]
    exact ⟨.inl, fun h => h.elim (fun hk => hk) fun hk => absurd (hw c hc hr k hk.1) hk.2⟩
  · simp [enter, hr, mem_queue_foldl_discover]

theorem Closed.enter (hw : Closed cs w) (hids : (cs.map Candidate.id).Nodup) (hc : c ∈ cs) :
    Closed cs (w.enter c) := by
  intro b hb hid k hk
  rw [mem_visited_enter hw hc]
  rcases mem_region_enter.1 hid with hid | hid
  · exact .inl (hw b hb hid k hk)
  · exact .inr (List.inj_on_of_nodup_map hids hb hc hid ▸ hk)

theorem Closed.foldl_enter (hw : Closed cs w) (hids : (cs.map Candidate.id).Nodup)
    (hes : ∀ c ∈ es, c ∈ cs) : Closed cs (es.foldl Walk.enter w) := by
  induction es generalizing w with
  | nil => exact hw
  | cons e es ih =>
    obtain ⟨he, hes⟩ := List.forall_mem_cons.1 hes
    exact ih (hw.enter hids he) hes

theorem mem_region_foldl_enter :
    id ∈ (es.foldl enter w).region ↔ id ∈ w.region ∨ ∃ c ∈ es, id = c.id := by
  induction es generalizing w with
  | nil => simp
  | cons e es ih => rw [List.foldl_cons, ih, mem_region_enter, List.exists_mem_cons_iff, or_assoc]

theorem mem_visited_foldl_enter (hw : Closed cs w) (hids : (cs.map Candidate.id).Nodup)
    (hes : ∀ c ∈ es, c ∈ cs) :
    k ∈ (es.foldl enter w).visited ↔ k ∈ w.visited ∨ ∃ c ∈ es, k ∈ c.keys := by
  induction es generalizing w with
  | nil => simp
  | cons e es ih =>
    obtain ⟨he, hes⟩ := List.forall_mem_cons.1 hes
    rw [List.foldl_cons, ih (hw.enter hids he) hes, mem_visited_enter hw he,
      List.exists_mem_cons_iff, or_assoc]

theorem mem_queue_foldl_enter (hw : Closed cs w) (hids : (cs.map Candidate.id).Nodup)
    (hes : ∀ c ∈ es, c ∈ cs) :
    k ∈ (es.foldl enter w).queue ↔
      k ∈ w.queue ∨ (∃ c ∈ es, k ∈ c.keys) ∧ k ∉ w.visited := by
  induction es generalizing w with
  | nil => simp
  | cons e es ih =>
    obtain ⟨he, hes⟩ := List.forall_mem_cons.1 hes
    rw [List.foldl_cons, ih (hw.enter hids he) hes, mem_queue_enter hw he,
      mem_visited_enter hw he, List.exists_mem_cons_iff]
    tauto

end Entering

section Measure

theorem countP_lt_countP {α : Type u} {p q : α → Bool} {x : α} {xs : List α}
    (hqp : ∀ y, q y → p y) (hx : x ∈ xs) (hp : p x) (hq : ¬ q x) : xs.countP q < xs.countP p := by
  obtain ⟨as, bs, rfl⟩ := List.append_of_mem hx
  have has : as.countP q ≤ as.countP p := List.countP_mono_left fun y _ => hqp y
  have hbs : bs.countP q ≤ bs.countP p := List.countP_mono_left fun y _ => hqp y
  simp only [List.countP_append, List.countP_cons_of_pos hp, List.countP_cons_of_neg hq]
  omega

def outstanding (all : List SlotKey) (w : Walk) : Nat :=
  w.queue.length + all.countP fun k => !w.visited.contains k

variable {all : List SlotKey}

theorem outstanding_discover_le (hk : k ∈ all) :
    (w.discover k).outstanding all ≤ w.outstanding all := by
  by_cases hv : k ∈ w.visited
  · simp [discover, hv]
  · -- the queue grows by a slot that is no longer unmarked
    have hlt : (all.countP fun l => !(k :: w.visited).contains l) <
        all.countP fun l => !w.visited.contains l :=
      countP_lt_countP (fun l => by simp) hk (by simpa using hv) (by simp)
    simp only [outstanding, discover, List.contains_iff_mem, hv, if_false, List.length_append,
      List.length_singleton]
    omega

theorem outstanding_foldl_discover_le (hks : ∀ k ∈ ks, k ∈ all) :
    (ks.foldl discover w).outstanding all ≤ w.outstanding all := by
  induction ks generalizing w with
  | nil => exact le_rfl
  | cons k ks ih =>
    obtain ⟨hk, hks⟩ := List.forall_mem_cons.1 hks
    exact (ih hks).trans (outstanding_discover_le hk)

theorem outstanding_foldl_enter_le (hes : ∀ c ∈ es, ∀ k ∈ c.keys, k ∈ all) :
    (es.foldl enter w).outstanding all ≤ w.outstanding all := by
  induction es generalizing w with
  | nil => exact le_rfl
  | cons e es ih =>
    obtain ⟨he, hes⟩ := List.forall_mem_cons.1 hes
    refine (ih hes).trans ?_
    unfold enter
    split
    · exact le_rfl
    · exact outstanding_foldl_discover_le he

end Measure

/-- What holds between two slots. -/
structure Invariant (cs : List Candidate) (seeds : List SlotKey) (w : Walk) : Prop where
  seeds_visited : ∀ k ∈ seeds, k ∈ w.visited
  reached : ∀ k ∈ w.visited, Reached cs seeds k
  queued : ∀ k ∈ w.queue, k ∈ w.visited
  closed : Closed cs w
  processed : ∀ k ∈ w.visited, k ∉ w.queue → ∀ c ∈ cs, k ∈ c.keys → c.id ∈ w.region
  region : ∀ id ∈ w.region, ∃ c ∈ cs, c.id = id ∧ ∃ k ∈ c.keys, k ∈ w.visited

def process (cs : List Candidate) (w : Walk) (k : SlotKey) (queue : List SlotKey) : Walk :=
  (cs.filter (·.keys.contains k)).foldl enter { w with queue := queue, steps := w.steps + 1 }

theorem run_cons (fuel : Nat) {queue : List SlotKey} (hq : w.queue = k :: queue) :
    w.run cs (fuel + 1) = (w.process cs k queue).run cs fuel := by
  rw [run, hq]
  rfl

theorem invariant_start : Invariant cs seeds (seeds.foldl discover {}) where
  seeds_visited _ hk := mem_visited_foldl_discover.2 (.inr hk)
  reached _ hk := .seed ((mem_visited_foldl_discover.1 hk).resolve_left List.not_mem_nil)
  queued k hk := by
    rcases mem_queue_foldl_discover.1 hk with hk | hk
    · exact absurd hk List.not_mem_nil
    · exact mem_visited_foldl_discover.2 (.inr hk.1)
  closed c _ hid := by simp at hid
  processed k hk hnq := by
    have hseed := (mem_visited_foldl_discover.1 hk).resolve_left List.not_mem_nil
    exact absurd (mem_queue_foldl_discover.2 (.inr ⟨hseed, List.not_mem_nil⟩)) hnq
  region id hid := by simp at hid

section Processing

variable {l : SlotKey} {queue : List SlotKey}

theorem mem_candidates_at : c ∈ cs.filter (·.keys.contains k) ↔ c ∈ cs ∧ k ∈ c.keys := by
  simp

theorem mem_visited_process (hw : Closed cs w) (hids : (cs.map Candidate.id).Nodup) :
    l ∈ (w.process cs k queue).visited ↔
      l ∈ w.visited ∨ ∃ c ∈ cs, k ∈ c.keys ∧ l ∈ c.keys := by
  have hcl : Closed cs { w with queue := queue, steps := w.steps + 1 } := hw
  rw [process, mem_visited_foldl_enter hcl hids fun c hc => (mem_candidates_at.1 hc).1]
  simp only [mem_candidates_at, and_assoc]

theorem mem_queue_process (hw : Closed cs w) (hids : (cs.map Candidate.id).Nodup) :
    l ∈ (w.process cs k queue).queue ↔
      l ∈ queue ∨ (∃ c ∈ cs, k ∈ c.keys ∧ l ∈ c.keys) ∧ l ∉ w.visited := by
  have hcl : Closed cs { w with queue := queue, steps := w.steps + 1 } := hw
  rw [process, mem_queue_foldl_enter hcl hids fun c hc => (mem_candidates_at.1 hc).1]
  simp only [mem_candidates_at, and_assoc]

theorem mem_region_process : id ∈ (w.process cs k queue).region ↔
    id ∈ w.region ∨ ∃ c ∈ cs, k ∈ c.keys ∧ id = c.id := by
  rw [process, mem_region_foldl_enter]
  simp only [mem_candidates_at, and_assoc]

theorem Invariant.processed_process (h : Invariant cs seeds w)
    (hids : (cs.map Candidate.id).Nodup) (hq : w.queue = k :: queue)
    (hl : l ∈ (w.process cs k queue).visited) (hnq : l ∉ (w.process cs k queue).queue)
    (hc : c ∈ cs) (hlc : l ∈ c.keys) : c.id ∈ (w.process cs k queue).region := by
  have hlw : l ∈ w.visited := by
    by_contra hlw
    have hnew := ((mem_visited_process h.closed hids).1 hl).resolve_left hlw
    exact hnq ((mem_queue_process h.closed hids).2 (.inr ⟨hnew, hlw⟩))
  by_cases hlk : l = k
  · exact mem_region_process.2 (.inr ⟨c, hc, hlk ▸ hlc, rfl⟩)
  · have hlq : l ∉ w.queue := by
      rw [hq, List.mem_cons]
      exact fun hor => hor.elim hlk fun hlq =>
        hnq ((mem_queue_process h.closed hids).2 (.inl hlq))
    exact mem_region_process.2 (.inl (h.processed l hlw hlq c hc hlc))

theorem Invariant.process (h : Invariant cs seeds w) (hids : (cs.map Candidate.id).Nodup)
    (hq : w.queue = k :: queue) : Invariant cs seeds (w.process cs k queue) := by
  have hk : k ∈ w.visited := h.queued k (hq ▸ List.mem_cons_self)
  have hcl : Closed cs { w with queue := queue, steps := w.steps + 1 } := h.closed
  have hvis {l : SlotKey} : l ∈ (w.process cs k queue).visited ↔
      l ∈ w.visited ∨ ∃ c ∈ cs, k ∈ c.keys ∧ l ∈ c.keys := mem_visited_process h.closed hids
  refine ⟨fun l hl => ?_, fun l hl => ?_, fun l hl => ?_,
    hcl.foldl_enter hids fun c hc => (mem_candidates_at.1 hc).1,
    fun l hl hnq c => h.processed_process hids hq hl hnq, fun id hid => ?_⟩
  · exact hvis.2 (.inl (h.seeds_visited l hl))
  · rcases hvis.1 hl with hl | ⟨c, hc, hkc, hlc⟩
    · exact h.reached l hl
    · exact .follow (h.reached k hk) hc hkc hlc
  · rcases (mem_queue_process h.closed hids).1 hl with hl | ⟨hnew, _⟩
    · exact hvis.2 (.inl (h.queued l (hq ▸ List.mem_cons_of_mem k hl)))
    · exact hvis.2 (.inr hnew)
  · rcases mem_region_process.1 hid with hid | ⟨c, hc, hkc, rfl⟩
    · obtain ⟨c, hc, hcid, l, hl, hlv⟩ := h.region id hid
      exact ⟨c, hc, hcid, l, hl, hvis.2 (.inl hlv)⟩
    · exact ⟨c, hc, rfl, k, hkc, hvis.2 (.inl hk)⟩

end Processing

/-- With enough fuel the walk ends with nothing left to process. -/
theorem run_spec (h : Invariant cs seeds w) (hids : (cs.map Candidate.id).Nodup) {fuel : Nat}
    (hf : w.outstanding (cs.flatMap Candidate.keys) ≤ fuel) :
    Invariant cs seeds (w.run cs fuel) ∧ (w.run cs fuel).queue = [] := by
  induction fuel generalizing w with
  | zero =>
    refine ⟨h, List.eq_nil_of_length_eq_zero ?_⟩
    simp only [outstanding] at hf
    exact Nat.eq_zero_of_add_eq_zero_right (Nat.le_zero.1 hf)
  | succ fuel ih =>
    cases hq : w.queue with
    | nil =>
      have hrun : w.run cs (fuel + 1) = w := by rw [run, hq]
      rw [hrun]
      exact ⟨h, hq⟩
    | cons k queue =>
      rw [run_cons fuel hq]
      refine ih (h.process hids hq) ?_
      have hkeys : ∀ c ∈ cs.filter (·.keys.contains k), ∀ l ∈ c.keys,
          l ∈ cs.flatMap Candidate.keys := fun c hc l hl =>
        List.mem_flatMap.2 ⟨c, (mem_candidates_at.1 hc).1, hl⟩
      have hle := outstanding_foldl_enter_le (w := { w with queue := queue, steps := w.steps + 1 })
        hkeys
      simp only [outstanding, hq, List.length_cons, process] at hf hle ⊢
      omega

end Walk

namespace Resolver

variable {r : Resolver} {seeds : List SlotKey} {k : SlotKey} {c : Candidate}

theorem walk_spec (r : Resolver) (hids : (r.candidates.map Candidate.id).Nodup)
    (seeds : List SlotKey) :
    Walk.Invariant r.candidates seeds (r.walk seeds) ∧ (r.walk seeds).queue = [] := by
  refine Walk.run_spec Walk.invariant_start hids ?_
  exact Nat.add_le_add_left List.countP_le_length _

theorem mem_visited_walk (hids : (r.candidates.map Candidate.id).Nodup) :
    k ∈ (r.walk seeds).visited ↔ Reached r.candidates seeds k := by
  obtain ⟨hw, hq⟩ := r.walk_spec hids seeds
  refine ⟨hw.reached k, fun hr => ?_⟩
  induction hr with
  | seed hk => exact hw.seeds_visited _ hk
  | follow _ hc hk hl ih => exact hw.closed _ hc (hw.processed _ ih (by simp [hq]) _ hc hk) _ hl

/-- The region consists of the candidates with a slot that can be reached. -/
theorem mem_region_walk (hids : (r.candidates.map Candidate.id).Nodup) (hc : c ∈ r.candidates) :
    c.id ∈ (r.walk seeds).region ↔ c.IsReached r.candidates seeds := by
  obtain ⟨hw, hq⟩ := r.walk_spec hids seeds
  constructor
  · intro hid
    obtain ⟨b, hb, hbc, k, hk, hv⟩ := hw.region _ hid
    obtain rfl := List.inj_on_of_nodup_map hids hb hc hbc
    exact ⟨k, hk, hw.reached k hv⟩
  · rintro ⟨k, hk, hr⟩
    exact hw.processed k ((mem_visited_walk hids).2 hr) (by simp [hq]) c hc hk

end Resolver

end ServletContainer
