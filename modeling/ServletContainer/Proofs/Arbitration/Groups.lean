import Mathlib.Algebra.Group.Nat.Units
import ServletContainer.Proofs.Arbitration.Presentation

/-! Who is listed in a group. The winner is the candidate that is enabled with the slot, and the losers
follow best first. Whoever loses is listed as often as it names the slot (`Resolver.count_members_groupOf`),
so that a group counts each of its competitors once unless a loser names the slot several times
(`resolveAll_members_iff`), as an error page does that gives an error twice. -/
namespace ServletContainer

def Group.members (g : Group) : List ElementId := g.winner.toList ++ g.shadowed

def Candidate.page (id : ElementId) (errors : List ErrorKey) : Candidate where
  element := { Element.catchAll id with
    name := s!"page{id}", patterns := .unmapped, details := .errorPage errors "/" }
  physical := [.root]

/-- An element takes a slot in a mount as often as it names the slot, for each time the mount is given. -/
theorem Element.count_slotKeys {e : Element} {ps : List ContextPath} {k : SlotKey}
    (hk : k.space = .ofKind e.kind) :
    (e.slotKeys ps).count k = ps.count k.physical * e.slots.count k.slot := by
  induction ps with
  | nil => simp [slotKeys]
  | cons p ps ih =>
    have hcons : e.slotKeys (p :: ps) =
        (e.slots.map fun s => ⟨p, .ofKind e.kind, s⟩) ++ e.slotKeys ps := rfl
    rw [hcons, List.count_append, ih]
    by_cases hp : p = k.physical
    · have hinj : Function.Injective fun s => SlotKey.mk p (.ofKind e.kind) s := fun _ _ h =>
        (SlotKey.mk.inj h).2.2
      have hself : k = SlotKey.mk p (.ofKind e.kind) k.slot := by rw [hp, ← hk]
      have hhere : (e.slots.map fun s => SlotKey.mk p (.ofKind e.kind) s).count k =
          e.slots.count k.slot := by
        conv_lhs => rw [hself]
        exact List.count_map_of_injective _ _ hinj _
      rw [hhere, hp, List.count_cons_self, Nat.add_mul, Nat.one_mul, Nat.add_comm]
    · have hnot : k ∉ e.slots.map fun s => SlotKey.mk p (.ofKind e.kind) s := by
        rw [List.mem_map]
        rintro ⟨s, _, rfl⟩
        exact hp rfl
      rw [List.count_eq_zero.2 hnot, List.count_cons_of_ne hp, Nat.zero_add]

theorem Candidate.count_keys {c : Candidate} {k : SlotKey} (hk : k ∈ c.keys) :
    c.keys.count k = c.physical.count k.physical * c.element.slots.count k.slot := by
  rw [c.keys_eq, Element.count_slotKeys (mem_keys.1 hk).2.1]

namespace Resolver

variable {cs : List Candidate} {c : Candidate} {h : Holders} {k : SlotKey} {id : ElementId}

theorem competitors_eq (cs : List Candidate) (k : SlotKey) :
    competitors cs k = cs.flatMap fun c => List.replicate (c.keys.count k) c := by
  unfold competitors
  simp only [List.map_const', List.count_eq_length_filter]
  rfl

theorem count_competitors (hids : (cs.map Candidate.id).Nodup) (hc : c ∈ cs) :
    ((competitors cs k).map Candidate.id).count c.id = c.keys.count k := by
  obtain ⟨as, bs, rfl⟩ := List.append_of_mem hc
  have hother {ds : List Candidate} (hds : c.id ∉ ds.map Candidate.id) :
      ((competitors ds k).map Candidate.id).count c.id = 0 := by
    refine List.count_eq_zero.2 fun hmem => hds ?_
    obtain ⟨d, hd, hid⟩ := List.mem_map.1 hmem
    exact hid ▸ List.mem_map_of_mem (mem_competitors.1 hd).1
  rw [List.map_append, List.map_cons, List.nodup_middle, List.nodup_cons, List.mem_append, not_or] at hids
  have hsplit : competitors (as ++ c :: bs) k =
      competitors as k ++ (List.replicate (c.keys.count k) c ++ competitors bs k) := by
    simp only [competitors_eq, List.flatMap_append, List.flatMap_cons]
  rw [hsplit, List.map_append, List.map_append, List.count_append, List.count_append,
    hother hids.1.1, hother hids.1.2, List.map_replicate, List.count_replicate_self, Nat.zero_add,
    Nat.add_zero]

theorem count_shadowed_groupOf (hids : (cs.map Candidate.id).Nodup) (hc : c ∈ cs) :
    (groupOf cs h k).shadowed.count c.id =
      if h.lookup k = some c.id then 0 else c.keys.count k := by
  have hlosers : ((competitors cs k).filter fun d => some d.id ≠ h.lookup k).map Candidate.id =
      ((competitors cs k).map Candidate.id).filter fun i => some i ≠ h.lookup k := by
    rw [List.filter_map]
    rfl
  have hshadowed : (groupOf cs h k).shadowed.Perm
      (((competitors cs k).map Candidate.id).filter fun i => some i ≠ h.lookup k) :=
    hlosers ▸ (sortBy_perm _ _).map Candidate.id
  rw [hshadowed.count_eq]
  by_cases hwins : h.lookup k = some c.id
  · rw [if_pos hwins, List.count_eq_zero]
    simp [hwins]
  · rw [if_neg hwins, List.count_filter (by simpa using Ne.symm hwins), count_competitors hids hc]

theorem count_members_groupOf (hids : (cs.map Candidate.id).Nodup) (hc : c ∈ cs) :
    (groupOf cs h k).members.count c.id =
      if h.lookup k = some c.id then 1 else c.keys.count k := by
  rw [Group.members, List.count_append, count_shadowed_groupOf hids hc]
  have hwinner : (groupOf cs h k).winner = h.lookup k := rfl
  by_cases hwins : h.lookup k = some c.id
  · simp [hwinner, hwins]
  · have hno : c.id ∉ (h.lookup k).toList := by simpa [Option.mem_toList, Option.mem_def] using hwins
    rw [if_neg hwins, if_neg hwins, hwinner, List.count_eq_zero.2 hno, Nat.zero_add]

theorem mem_members_iff (hids : (cs.map Candidate.id).Nodup) {policy : Policy} {g : Group}
    (hg : g ∈ (Resolver.mk policy cs).resolveAll.groups) (hc : c ∈ cs) :
    c.id ∈ g.members ↔ g.key ∈ c.keys := by
  obtain ⟨k, _, hreached, rfl⟩ := (mem_groups_resolve hids).1 hg
  have hkey : (groupOf cs (Resolver.mk policy cs).holders k).key = k := rfl
  rw [hkey, ← List.count_pos_iff, count_members_groupOf hids hc]
  split
  · rename_i hwins
    obtain ⟨d, hd, hid, hk, _⟩ := (lookup_holders hids hreached).1 hwins
    obtain rfl := List.inj_on_of_nodup_map hids hd hc hid
    simpa using hk
  · exact List.count_pos_iff

theorem exists_group (hids : (cs.map Candidate.id).Nodup) (policy : Policy) (hc : c ∈ cs)
    (hk : k ∈ c.keys) : ∃ g ∈ (Resolver.mk policy cs).resolveAll.groups, g.key = k := by
  have hknown : k ∈ (Resolver.mk policy cs).knownKeys := mem_knownKeys.2 ⟨c, hc, hk⟩
  exact ⟨_, (mem_groups_resolve hids).2 ⟨k, hknown, .seed hknown, rfl⟩, rfl⟩

theorem pairwise_precedes (cs : List Candidate) :
    (sortBy Candidate.precedes cs).Pairwise fun a b => ¬ b.Better a := by
  have hle : (sortBy Candidate.precedes cs).Pairwise fun a b => a.precedes b = true :=
    pairwise_sortBy (fun a b => TieBreak.not_lt_total a.element.tieBreak b.element.tieBreak)
      (fun a b c => TieBreak.not_lt_trans a.element.tieBreak b.element.tieBreak c.element.tieBreak) cs
  exact hle.imp fun {a b} hab => by simpa [Candidate.precedes, Element.precedes, Candidate.Better] using hab

theorem exists_losers (cs : List Candidate) (h : Holders) (k : SlotKey) :
    ∃ losers : List Candidate, losers.map Candidate.id = (groupOf cs h k).shadowed ∧
      (∀ c ∈ losers, c ∈ cs ∧ k ∈ c.keys) ∧ losers.Pairwise fun a b => ¬ b.Better a := by
  refine ⟨_, rfl, fun c hc => ?_, pairwise_precedes _⟩
  exact mem_competitors.1 (List.mem_filter.1 (mem_sortBy.1 hc)).1

end Resolver

/-- Arbitrating everything gives one group for each slot that is taken. The winner of a group is who is
enabled with the slot, the losers come best first, and a loser is listed as often as it names the slot. So a
group counts each of its competitors once exactly if no loser names the slot again. -/
theorem resolveAll_members_iff (policy : Policy) (cs : List Candidate)
    (hids : (cs.map Candidate.id).Nodup) :
    let outcome := (Resolver.mk policy cs).resolveAll
    (outcome.groups.map (·.key)).Nodup ∧
      (∀ k, k ∈ outcome.groups.map (·.key) ↔ ∃ c ∈ cs, k ∈ c.keys) ∧
      ∀ g ∈ outcome.groups,
        (∀ id, g.winner = some id ↔
          ∃ c ∈ cs, c.id = id ∧ (enabling outcome.enabled).Holds c g.key) ∧
        (∃ losers : List Candidate, losers.map Candidate.id = g.shadowed ∧
          (∀ c ∈ losers, c ∈ cs ∧ g.key ∈ c.keys) ∧ losers.Pairwise fun a b => ¬ b.Better a) ∧
        (∀ c ∈ cs, g.key ∈ c.keys → g.members.count c.id = if g.winner = some c.id then 1
          else c.physical.count g.key.physical * c.element.slots.count g.key.slot) ∧
        ((∀ c ∈ cs, g.key ∈ c.keys → g.members.count c.id = 1) ↔
          ∀ c ∈ cs, g.key ∈ c.keys → g.winner ≠ some c.id →
            c.physical.count g.key.physical = 1 ∧ c.element.slots.count g.key.slot = 1) := by
  intro outcome
  let r : Resolver := ⟨policy, cs⟩
  have hkeys : outcome.groups.map (·.key) = r.listing r.knownKeys := Resolver.keys_groups_resolve r r.knownKeys
  refine ⟨hkeys ▸ r.nodup_listing r.knownKeys, fun k => ?_, fun g hg => ?_⟩
  · rw [hkeys, Resolver.mem_listing hids, Resolver.mem_knownKeys]
    exact and_iff_right_of_imp fun hk => .seed (Resolver.mem_knownKeys.2 hk)
  · obtain ⟨k, hknown, hreached, rfl⟩ := (Resolver.mem_groups_resolve hids).1 hg
    have hcount : ∀ c ∈ cs, k ∈ c.keys →
        (Resolver.groupOf cs r.holders k).members.count c.id =
          if r.holders.lookup k = some c.id then 1
          else c.physical.count k.physical * c.element.slots.count k.slot := fun c hc hk => by
      rw [Resolver.count_members_groupOf hids hc, Candidate.count_keys hk]
    refine ⟨fun id => Resolver.lookup_holders hids hreached, Resolver.exists_losers cs r.holders k, hcount,
      forall₃_congr fun c hc hk => ?_⟩
    have hc := hcount c hc hk
    simp only [Resolver.groupOf] at hc ⊢
    rw [hc]
    split
    · rename_i hwins
      simp [r, hwins]
    · rename_i hloses
      rw [mul_eq_one]
      exact (imp_iff_right hloses).symm

/-- An error page, and a worse one that gives the error twice: it is listed twice for the error. -/
theorem resolveAll_members_iff_repeated :
    let cs : List Candidate := [.page 1 [.code 404], .page 2 [.code 404, .code 404, .code 500]]
    let error (code : Nat) : SlotKey := ⟨.root, .errorPage, .error (.code code)⟩
    let g : Group := ⟨error 404, some 1, [2, 2]⟩
    (cs.map Candidate.id).Nodup ∧ g ∈ (Resolver.mk .strict cs).resolveAll.groups ∧
      g.members.count 1 = 1 ∧ g.members.count 2 = 2 ∧
      error 500 ∈ (Resolver.mk .strict cs).resolveAll.groups.map (·.key) := by
  intro cs error g
  have hids : (cs.map Candidate.id).Nodup := by decide
  have hg : g ∈ (Resolver.mk .strict cs).resolveAll.groups := by decide +kernel
  obtain ⟨_, hslots, hgroups⟩ := resolveAll_members_iff .strict cs hids
  obtain ⟨_, _, hcount, _⟩ := hgroups g hg
  exact ⟨hids, hg, hcount (.page 1 [.code 404]) (by decide) (by decide),
    hcount (.page 2 [.code 404, .code 404, .code 500]) (by decide) (by decide),
    (hslots _).2 ⟨.page 2 [.code 404, .code 404, .code 500], by decide, by decide⟩⟩

theorem resolveAll_counts_twice :
    ¬ ∀ (policy : Policy) (cs : List Candidate), (cs.map Candidate.id).Nodup →
      ∀ g ∈ (Resolver.mk policy cs).resolveAll.groups, ∀ c ∈ cs, g.key ∈ c.keys →
        g.members.count c.id = 1 := by
  intro h
  let worse : Candidate := .page 2 [.code 404, .code 404]
  have honce : (Group.mk ⟨.root, .errorPage, .error (.code 404)⟩ (some 1) [2, 2]).members.count 2 = 1 :=
    h .strict [.page 1 [.code 404], worse] (by decide) _ (by decide +kernel) worse (by decide) (by decide)
  exact absurd honce (by decide)

end ServletContainer
