import Mathlib.Data.String.Basic
import ServletContainer.Arbitration.Names
import ServletContainer.Proofs.Arbitration.Listing
import ServletContainer.Proofs.Arbitration.Regional

/-! Arbitration by names beside arbitration by slots. In a single mount in which candidates of different
names share nothing but names, whoever shares a slot with another shares the name with it, so that the
best one of each name is enabled (`Rivals.enabled_best`) and the others of that name lose to it. The groups
of the names are then those of arbitration by names (`ofElements_eq_names`), in the same order. -/
namespace ServletContainer

section Slots

def nameSlot (p : ContextPath) (key : Namespace × String) : SlotKey := ⟨p, key.1, .name key.2⟩

theorem nameSlot_injective (p : ContextPath) : Function.Injective (nameSlot p) := by
  rintro ⟨n, s⟩ ⟨m, t⟩ h
  simp only [nameSlot, SlotKey.mk.injEq, Slot.name.injEq] at h
  rw [h.2.1, h.2.2]

theorem keyLe_eq (p : ContextPath) (a b : Namespace × String) :
    NameGroup.keyLe a b = (nameSlot p a).le (nameSlot p b) := by
  obtain ⟨n, s⟩ := a
  obtain ⟨m, t⟩ := b
  have hcompare : Ord.compare (nameSlot p ⟨n, s⟩) (nameSlot p ⟨m, t⟩) =
      (Ord.compare n.index m.index).then (Ord.compare s t) := by
    simp [SlotKey.compare_eq_compareLex, compareLex, compareOn, nameSlot, Slot.place]
  rw [Bool.eq_iff_iff, SlotKey.le_iff, hcompare]
  rcases Nat.lt_trichotomy n.index m.index with h | h | h
  · simp [NameGroup.keyLe, Nat.compare_eq_lt.2 h, h]
  · obtain rfl := Namespace.index_injective h
    simp [NameGroup.keyLe, Std.LawfulBCmp.isLE_iff_le]
  · have hne : n ≠ m := fun he => h.ne' (congrArg Namespace.index he)
    simp [NameGroup.keyLe, Nat.compare_eq_gt.2 h, h.le, hne]

def Slot.name? : Slot → Option String
  | .name n => some n
  | _ => none

def Group.names? (g : Group) : Option NameGroup :=
  g.key.slot.name?.map fun n => ⟨g.key.space, n, g.winner, g.shadowed⟩

theorem Element.slots_eq (e : Element) :
    ∃ ss : List Slot, e.slots = .name e.name :: ss ∧ ∀ s ∈ ss, s.name? = none := by
  unfold slots
  refine ⟨_, rfl, ?_⟩
  split <;> simp [Slot.name?]

theorem Element.mem_slots_name {e : Element} {n : String} : .name n ∈ e.slots ↔ n = e.name := by
  obtain ⟨ss, hss, hnone⟩ := e.slots_eq
  have hn : .name n ∉ ss := fun h => by simpa [Slot.name?] using hnone _ h
  simp [hss, hn]

end Slots

/-- Candidates for a single mount, of which only those of one name share other slots. -/
structure Rivals (p : ContextPath) (cs : List Candidate) : Prop where
  nodup : (cs.map Candidate.id).Nodup
  physical : ∀ c ∈ cs, c.physical = [p]
  apart : ∀ a ∈ cs, ∀ b ∈ cs, ∀ k, k ∈ a.keys → k ∈ b.keys → k.slot.name? = none →
    a.element.name = b.element.name

namespace Rivals

open Resolver

variable {policy : Policy} {p : ContextPath} {cs : List Candidate} {a b c w : Candidate}
  {key : Namespace × String} {k : SlotKey}

def ranked (cs : List Candidate) (key : Namespace × String) : List Candidate :=
  sortBy Candidate.precedes (cs.filter fun c => NameGroup.keyOf c.element = key)

theorem mem_ranked : c ∈ ranked cs key ↔ c ∈ cs ∧ NameGroup.keyOf c.element = key := by
  simp [ranked]

theorem pairwise_ranked (h : Rivals p cs) (key : Namespace × String) :
    (ranked cs key).Pairwise fun a b => a.Better b ∧ a.id ≠ b.id :=
  pairwise_sortBy_precedes (h.nodup.sublist (List.filter_sublist.map Candidate.id))

theorem keyOf_eq (h : Rivals p cs) (ha : a ∈ cs) (hb : b ∈ cs) (hka : k ∈ a.keys) (hkb : k ∈ b.keys) :
    NameGroup.keyOf a.element = NameGroup.keyOf b.element := by
  obtain ⟨_, hspacea, hslota⟩ := Candidate.mem_keys.1 hka
  obtain ⟨_, hspaceb, hslotb⟩ := Candidate.mem_keys.1 hkb
  have hname : a.element.name = b.element.name := by
    cases hslot : k.slot with
    | name n =>
      rw [hslot, Element.mem_slots_name] at hslota hslotb
      exact hslota.symm.trans hslotb
    | pattern u => exact h.apart a ha b hb k hka hkb (by simp [hslot, Slot.name?])
    | error e => exact h.apart a ha b hb k hka hkb (by simp [hslot, Slot.name?])
  exact Prod.ext (hspacea.symm.trans hspaceb) hname

theorem enabled_best (h : Rivals p cs) {rest : List Candidate} (hw : ranked cs key = w :: rest) :
    enabling (Resolver.mk policy cs).resolveAll.enabled w.id p := by
  obtain ⟨hwcs, hkey⟩ := mem_ranked.1 (hw ▸ List.mem_cons_self : w ∈ ranked cs key)
  have hwp : p ∈ w.physical := by simp [h.physical w hwcs]
  have hstable : StableAt policy cs _ w := stable_resolveAll (r := ⟨policy, cs⟩) h.nodup w hwcs
  refine (hstable p).2 ⟨hwp, Candidate.claim_ne_nil hwp, ?_⟩
  rintro ⟨b, hb, hbetter, k, hk, hkb, _⟩
  have hbkey : NameGroup.keyOf b.element = key :=
    (h.keyOf_eq hb hwcs hkb (Candidate.mem_keys_of_mem_claim hk)).trans hkey
  have hranked := h.pairwise_ranked key
  rw [hw, List.pairwise_cons] at hranked
  -- nobody of the name comes before the first
  rcases List.mem_cons.1 (hw ▸ mem_ranked.2 ⟨hb, hbkey⟩ : b ∈ w :: rest) with rfl | hrest
  · exact Candidate.Better.irrefl b hbetter
  · exact (hranked.1 b hrest).1.asymm hbetter

theorem lookup_nameSlot (h : Rivals p cs) {rest : List Candidate} (hw : ranked cs key = w :: rest) :
    (Resolver.mk policy cs).holders.lookup (nameSlot p key) = some w.id := by
  obtain ⟨hwcs, hkey⟩ := mem_ranked.1 (hw ▸ List.mem_cons_self : w ∈ ranked cs key)
  have hslot : nameSlot p key ∈ w.keys := by
    rw [← hkey, Candidate.mem_keys, h.physical w hwcs]
    exact ⟨List.mem_singleton_self p, rfl, Element.mem_slots_name.2 rfl⟩
  have hknown : nameSlot p key ∈ (Resolver.mk policy cs).knownKeys := mem_knownKeys.2 ⟨w, hwcs, hslot⟩
  exact (lookup_holders (r := ⟨policy, cs⟩) h.nodup (.seed hknown)).2
    ⟨w, hwcs, rfl, hslot, h.enabled_best hw⟩

theorem filter_keys_eq (h : Rivals p cs) (hc : c ∈ cs) : c.keys.filter (· = nameSlot p key) =
    if NameGroup.keyOf c.element = key then [nameSlot p key] else [] := by
  obtain ⟨ss, hss, hnone⟩ := c.element.slots_eq
  have hrest : ss.filter (fun s => (⟨p, .ofKind c.element.kind, s⟩ : SlotKey) = nameSlot p key) =
      [] := by
    refine List.filter_eq_nil_iff.2 fun s hs he => ?_
    simp only [decide_eq_true_eq, nameSlot, SlotKey.mk.injEq] at he
    simpa [he.2.2, Slot.name?] using hnone s hs
  have hname : (⟨p, .ofKind c.element.kind, .name c.element.name⟩ : SlotKey) = nameSlot p key ↔
      NameGroup.keyOf c.element = key := (nameSlot_injective p).eq_iff (a := NameGroup.keyOf c.element)
  rw [c.keys_eq, h.physical c hc, Element.slotKeys, List.flatMap_singleton, hss, List.map_cons,
    List.filter_cons, List.filter_map]
  simp only [Function.comp_def, hrest, decide_eq_true_eq, hname, List.map_nil]
  split <;> simp [*]

theorem competitors_nameSlot (h : Rivals p cs) :
    competitors cs (nameSlot p key) = cs.filter fun c => NameGroup.keyOf c.element = key := by
  refine flatMap_eq_filter fun c hc => ?_
  rw [h.filter_keys_eq hc]
  split <;> simp [*]

theorem groupOf_nameSlot (h : Rivals p cs) {rest : List Candidate} (hw : ranked cs key = w :: rest) :
    groupOf cs (Resolver.mk policy cs).holders (nameSlot p key) =
      ⟨nameSlot p key, some w.id, rest.map Candidate.id⟩ := by
  have hranked := h.pairwise_ranked key
  rw [hw, List.pairwise_cons] at hranked
  have hothers : (w :: rest).filter (fun c => decide (some c.id ≠ some w.id)) = rest := by
    rw [List.filter_cons_of_neg (by simp)]
    refine List.filter_eq_self.2 fun c hc => ?_
    simpa using (hranked.1 c hc).2.symm
  have hsorted : (ranked cs key).filter (fun c => decide (some c.id ≠ some w.id)) =
      sortBy Candidate.precedes ((cs.filter fun c => NameGroup.keyOf c.element = key).filter
        fun c => decide (some c.id ≠ some w.id)) :=
    TieBreak.filter_sortBy (f := fun c : Candidate => c.element.tieBreak)
      (fun a ha b hb => List.inj_on_of_nodup_map h.nodup (List.mem_filter.1 ha).1
        (List.mem_filter.1 hb).1) _
  rw [hw, hothers] at hsorted
  simp only [groupOf, h.lookup_nameSlot hw, h.competitors_nameSlot, ← hsorted]

/-- Arbitration by names has the same group. -/
theorem ofKey_eq {rest : List Candidate} (hw : ranked cs key = w :: rest) :
    NameGroup.ofKey (cs.map (·.element)) key = ⟨key.1, key.2, some w.id, rest.map Candidate.id⟩ := by
  have hinOrder : Element.inOrder ((cs.map (·.element)).filter fun e => NameGroup.keyOf e = key) =
      (ranked cs key).map (·.element) := by
    rw [List.filter_map, Element.inOrder, sortBy_map]
    rfl
  have hids : (w :: rest).map ((·.id) ∘ (·.element)) = (w :: rest).map Candidate.id := rfl
  rw [NameGroup.ofKey, hinOrder, hw, List.map_map, hids]
  rfl

end Rivals

section Listings

open Resolver

variable {policy : Policy} {p : ContextPath} {cs : List Candidate} {key : Namespace × String}
  {k : SlotKey}

def namesOf (es : List Element) : List (Namespace × String) :=
  (es.map NameGroup.keyOf).foldl (fun ks k => if ks.contains k then ks else k :: ks) []

theorem mem_namesOf : key ∈ namesOf (cs.map (·.element)) ↔
    ∃ c ∈ cs, NameGroup.keyOf c.element = key := by
  rw [namesOf, mem_foldl_collect]
  simp

theorem Rivals.known_names (h : Rivals p cs) (policy : Policy) :
    k ∈ (Resolver.mk policy cs).knownKeys ∧ k.slot.name?.isSome ↔
      k ∈ (namesOf (cs.map (·.element))).map (nameSlot p) := by
  rw [mem_knownKeys, List.mem_map]
  simp only [mem_namesOf]
  constructor
  · rintro ⟨⟨c, hc, hk⟩, hname⟩
    obtain ⟨hp, hspace, hslot⟩ := Candidate.mem_keys.1 hk
    rw [h.physical c hc, List.mem_singleton] at hp
    refine ⟨_, ⟨c, hc, rfl⟩, ?_⟩
    obtain ⟨q, n, s⟩ := k
    cases s with
    | name t =>
      obtain rfl := Element.mem_slots_name.1 hslot
      cases hp
      cases hspace
      rfl
    | pattern u => simp [Slot.name?] at hname
    | error e => simp [Slot.name?] at hname
  · rintro ⟨_, ⟨c, hc, rfl⟩, rfl⟩
    refine ⟨⟨c, hc, Candidate.mem_keys.2 ⟨?_, rfl, Element.mem_slots_name.2 rfl⟩⟩, rfl⟩
    simp [h.physical c hc, nameSlot]

theorem Rivals.filter_listing (h : Rivals p cs) :
    ((Resolver.mk policy cs).listing (Resolver.mk policy cs).knownKeys).filter (·.slot.name?.isSome) =
      (sortBy NameGroup.keyLe (namesOf (cs.map (·.element)))).map (nameSlot p) := by
  have hle : NameGroup.keyLe = fun a b => (nameSlot p a).le (nameSlot p b) :=
    funext₂ fun a b => keyLe_eq p a b
  rw [hle, ← sortBy_map, listing, SlotKey.filter_sortBy]
  refine SlotKey.sortBy_eq_of_perm ((List.perm_ext_iff_of_nodup ?_ ?_).2 fun k => ?_)
  · exact ((counted_walk _ _).nodup.filter _).filter _
  · exact (nodup_foldl_collect List.nodup_nil).map (nameSlot_injective p)
  · have hknown : k ∈ ((Resolver.mk policy cs).walk (Resolver.mk policy cs).knownKeys).visited.filter
        (fun k => cs.any (·.keys.contains k)) ↔ k ∈ (Resolver.mk policy cs).knownKeys :=
      mem_sortBy.symm.trans
        ((mem_listing (r := ⟨policy, cs⟩) h.nodup).trans (and_iff_right_of_imp .seed))
    rw [List.mem_filter, hknown, ← h.known_names policy]

/-- Each name has the same group in both. -/
theorem Rivals.names?_groupOf (h : Rivals p cs) (hkey : key ∈ namesOf (cs.map (·.element))) :
    (groupOf cs (Resolver.mk policy cs).holders (nameSlot p key)).names? =
      some (NameGroup.ofKey (cs.map (·.element)) key) := by
  obtain ⟨c, hc, hck⟩ := mem_namesOf.1 hkey
  have hmem : c ∈ Rivals.ranked cs key := Rivals.mem_ranked.2 ⟨hc, hck⟩
  obtain ⟨w, rest, hw⟩ := List.exists_cons_of_ne_nil (List.ne_nil_of_mem hmem)
  rw [h.groupOf_nameSlot hw, Rivals.ofKey_eq hw]
  rfl

end Listings

/-- In a single mount in which candidates of different names share nothing but names, arbitration by names
has the groups that arbitration by slots has for the names, whatever the policy. -/
theorem ofElements_eq_names (policy : Policy) {p : ContextPath} {cs : List Candidate}
    (h : Rivals p cs) :
    NameGroup.ofElements (cs.map (·.element)) =
      (Resolver.mk policy cs).resolveAll.groups.filterMap Group.names? := by
  let r : Resolver := ⟨policy, cs⟩
  let listing := r.listing r.knownKeys
  have hgroups : r.resolveAll.groups = listing.map (Resolver.groupOf cs r.holders) :=
    r.groups_resolve r.knownKeys
  have hnames : listing.filterMap (Group.names? ∘ Resolver.groupOf cs r.holders) =
      (listing.filter (·.slot.name?.isSome)).filterMap
        (Group.names? ∘ Resolver.groupOf cs r.holders) := by
    rw [List.filterMap_filter]
    refine List.filterMap_congr fun k _ => ?_
    cases hk : k.slot.name? <;> simp [Group.names?, Resolver.groupOf, hk]
  have hnamed : NameGroup.ofElements (cs.map (·.element)) =
      (sortBy NameGroup.keyLe (namesOf (cs.map (·.element)))).filterMap
        (some ∘ NameGroup.ofKey (cs.map (·.element))) := by
    rw [List.filterMap_eq_map]
    rfl
  rw [hnamed, hgroups, List.filterMap_map, hnames, h.filter_listing, List.filterMap_map]
  refine List.filterMap_congr fun key hkey => ?_
  exact (h.names?_groupOf (mem_sortBy.1 hkey)).symm

/-- A servlet and a better resource of one name and pattern, a filter of that name, and two error pages of
one name for the same error. -/
theorem ofElements_eq_names_shared :
    let c (e : Element) : Candidate := { element := e, physical := [.root] }
    let e : Element := { Element.catchAll 4 with
      name := "e", patterns := .unmapped, details := .errorPage [.code 404] "/" }
    let cs : List Candidate :=
      [c (.catchAll 1), c { Element.catchAll 2 with rank := 1, details := .resource "" },
        c { Element.catchAll 3 with details := .filter (.given .accessLog) [] false },
        c e, c { e with id := 5 }]
    let groups : List NameGroup :=
      [⟨.servlet, "echo", some 2, [1]⟩, ⟨.filter, "echo", some 3, []⟩, ⟨.errorPage, "e", some 4, [5]⟩]
    Rivals .root cs ∧ NameGroup.ofElements (cs.map (·.element)) = groups ∧
      (Resolver.mk .strict cs).resolveAll.groups.filterMap Group.names? = groups := by
  intro c e cs groups
  have h : Rivals .root cs := ⟨by decide, by decide, by decide⟩
  have hgroups : NameGroup.ofElements (cs.map (·.element)) = groups := by decide +kernel
  exact ⟨h, hgroups, (ofElements_eq_names .strict h).symm.trans hgroups⟩

end ServletContainer
