import ServletContainer.Proofs.Arbitration.Outcome

/-! Who notices a newcomer. Two arbitrations agree on a set of candidates that holds, with each
candidate, the better ones that share a slot with it (`Stable.agree`). The candidates that are better than
a newcomer form such a set, those that shared slots do not connect with it form one, and so do the
dynamic ones; in each of them everyone stays enabled where it was (`resolveAll_undisturbed`). -/
namespace ServletContainer

namespace Resolver

variable {policy : Policy} {cs ds : List Candidate} {c x : Candidate}

/-- What two arbitrations have in common: the candidates of a set that is closed under better ones with
a shared slot. -/
theorem find?_resolveAll_agree {P : Candidate → Prop} (hcs : (cs.map Candidate.id).Nodup)
    (hds : (ds.map Candidate.id).Nodup) (hboth : ∀ c, P c → c ∈ cs ∧ c ∈ ds)
    (hup : ∀ c, P c → ∀ b, b.Shares c → b.Better c → b ∈ cs ∨ b ∈ ds → P b) (hc : P c) :
    (Resolver.mk policy cs).resolveAll.enabled.find? c.id =
      (Resolver.mk policy ds).resolveAll.enabled.find? c.id := by
  obtain ⟨hmem, hmem'⟩ := hboth c hc
  have hE : Stable policy cs _ := stable_resolveAll (r := ⟨policy, cs⟩) hcs
  have hF : Stable policy ds _ := stable_resolveAll (r := ⟨policy, ds⟩) hds
  exact find?_resolveAll_congr hcs hds hmem hmem' (hE.agree hF hboth hup c hc)

/-- No dynamic candidate notices which others there are. -/
theorem find?_resolveAll_dynamic (hcs : (cs.map Candidate.id).Nodup)
    (hds : (ds.map Candidate.id).Nodup)
    (hsame : ∀ c : Candidate, c.element.dynamic → (c ∈ ds ↔ c ∈ cs)) (hc : c ∈ cs)
    (hdynamic : c.element.dynamic) :
    (Resolver.mk policy ds).resolveAll.enabled.find? c.id =
      (Resolver.mk policy cs).resolveAll.enabled.find? c.id := by
  refine find?_resolveAll_agree (P := fun b => b ∈ cs ∧ b.element.dynamic) hds hcs ?_ ?_
    ⟨hc, hdynamic⟩
  · exact fun b hb => ⟨(hsame b hb.2).2 hb.1, hb.1⟩
  · rintro b ⟨_, hb⟩ a _ hab ha
    have hda : a.element.dynamic := TieBreak.dynamic_of_lt hab hb
    exact ⟨ha.elim (hsame a hda).1 id, hda⟩

section Newcomer

theorem nodup_of_newcomer (hds : (ds.map Candidate.id).Nodup) (hperm : ds.Perm (x :: cs)) :
    (cs.map Candidate.id).Nodup :=
  (List.nodup_cons.1 ((hperm.map Candidate.id).nodup_iff.1 hds)).2

theorem mem_with_newcomer (hperm : ds.Perm (x :: cs)) (hc : c ∈ cs) : c ∈ ds :=
  hperm.mem_iff.2 (List.mem_cons_of_mem x hc)

theorem mem_of_ne_newcomer (hperm : ds.Perm (x :: cs)) (hne : c ≠ x) (hc : c ∈ ds) : c ∈ cs :=
  (List.mem_cons.1 (hperm.mem_iff.1 hc)).resolve_left hne

/-- No candidate better than the newcomer notices it. -/
theorem find?_resolveAll_better (hds : (ds.map Candidate.id).Nodup) (hperm : ds.Perm (x :: cs))
    (hc : c ∈ cs) (hbetter : c.Better x) :
    (Resolver.mk policy ds).resolveAll.enabled.find? c.id =
      (Resolver.mk policy cs).resolveAll.enabled.find? c.id := by
  refine find?_resolveAll_agree (P := fun b => b ∈ cs ∧ b.Better x) hds
    (nodup_of_newcomer hds hperm) ?_ ?_ ⟨hc, hbetter⟩
  · exact fun b hb => ⟨mem_with_newcomer hperm hb.1, hb.1⟩
  · rintro b ⟨_, hbx⟩ a _ hab ha
    have hax : a.Better x := hab.trans hbx
    have hne : a ≠ x := fun he => Candidate.Better.irrefl x (he ▸ hax)
    exact ⟨ha.elim (mem_of_ne_newcomer hperm hne) id, hax⟩

/-- No candidate without a connection to the newcomer notices it. -/
theorem find?_resolveAll_stranger (hds : (ds.map Candidate.id).Nodup) (hperm : ds.Perm (x :: cs))
    (hc : c ∈ cs) (hstranger : ¬ c.IsReached ds x.keys) :
    (Resolver.mk policy ds).resolveAll.enabled.find? c.id =
      (Resolver.mk policy cs).resolveAll.enabled.find? c.id := by
  refine find?_resolveAll_agree (P := fun b => b ∈ cs ∧ ¬ b.IsReached ds x.keys) hds
    (nodup_of_newcomer hds hperm) ?_ ?_ ⟨hc, hstranger⟩
  · exact fun b hb => ⟨mem_with_newcomer hperm hb.1, hb.1⟩
  · rintro b ⟨_, hb⟩ a ⟨k, hka, hkb⟩ _ ha
    -- from a neighbour that is reached the shared slot would lead on to the stranger
    have hfar : ¬ a.IsReached ds x.keys := by
      rintro ⟨l, hla, hl⟩
      exact hb ⟨k, hkb, hl.follow (ha.elim id (mem_with_newcomer hperm)) hla hka⟩
    have hne : a ≠ x := fun he => hfar ⟨k, hka, .seed (he ▸ hka)⟩
    exact ⟨ha.elim (mem_of_ne_newcomer hperm hne) id, hfar⟩

end Newcomer

end Resolver

/-- A newcomer is noticed neither by better candidates nor by those that shared slots do not connect
with it: they are enabled in the same mounts with it and without it. And whatever declarative candidates
come and go, the dynamic ones are enabled in the same mounts. -/
theorem resolveAll_undisturbed (policy : Policy) {x : Candidate} {cs ds : List Candidate}
    (hids : (ds.map Candidate.id).Nodup) (hperm : ds.Perm (x :: cs)) :
    let before := (Resolver.mk policy cs).resolveAll.enabled
    let after := (Resolver.mk policy ds).resolveAll.enabled
    (∀ c ∈ cs, c.Better x → after.find? c.id = before.find? c.id) ∧
      (∀ c ∈ cs, ¬ c.IsReached ds x.keys → after.find? c.id = before.find? c.id) ∧
      (x.element.dynamic = false → ∀ c ∈ cs, c.element.dynamic →
        after.find? c.id = before.find? c.id) ∧
      ∀ es, (es.map Candidate.id).Nodup →
        (∀ c : Candidate, c.element.dynamic → (c ∈ es ↔ c ∈ cs)) →
        ∀ c ∈ cs, c.element.dynamic →
          (Resolver.mk policy es).resolveAll.enabled.find? c.id = before.find? c.id := by
  intro before after
  have hcs : (cs.map Candidate.id).Nodup := Resolver.nodup_of_newcomer hids hperm
  refine ⟨fun c hc => Resolver.find?_resolveAll_better hids hperm hc,
    fun c hc => Resolver.find?_resolveAll_stranger hids hperm hc, fun hx c hc hdynamic => ?_,
    fun es hes hsame c hc => Resolver.find?_resolveAll_dynamic hcs hes hsame hc⟩
  have hsame (b : Candidate) (hb : b.element.dynamic) : b ∈ ds ↔ b ∈ cs := by
    have hne : b ≠ x := fun he => by simp [← he, hb] at hx
    exact ⟨Resolver.mem_of_ne_newcomer hperm hne, Resolver.mem_with_newcomer hperm⟩
  exact Resolver.find?_resolveAll_dynamic hcs hids hsame hc hdynamic

/-- The newcomer x takes a mount from c, which so loses its other one to d. The better candidate b is
connected with x through e, and s is not connected. As the only dynamic one, b is enabled where it would
be alone. -/
theorem resolveAll_undisturbed_flipped :
    let b : Candidate :=
      { element := { Element.catchAll 1 with dynamic := true }, physical := [⟨"/d"⟩] }
    let x : Candidate := { element := .catchAll 2, physical := [⟨"/b"⟩] }
    let c : Candidate := { element := .catchAll 3, physical := [⟨"/b"⟩, ⟨"/c"⟩] }
    let d : Candidate := { element := .catchAll 4, physical := [⟨"/c"⟩] }
    let e : Candidate := { element := .catchAll 5, physical := [⟨"/c"⟩, ⟨"/d"⟩] }
    let s : Candidate := { element := .catchAll 6, physical := [⟨"/s"⟩] }
    let before := (Resolver.mk .strict [b, c, d, e, s]).resolveAll.enabled
    let after := (Resolver.mk .strict [x, b, c, d, e, s]).resolveAll.enabled
    ([x, b, c, d, e, s].map Candidate.id).Nodup ∧ [x, b, c, d, e, s].Perm (x :: [b, c, d, e, s]) ∧
      b.Better x ∧ b.IsReached [x, b, c, d, e, s] x.keys ∧ after.find? b.id = before.find? b.id ∧
      ¬ s.IsReached [x, b, c, d, e, s] x.keys ∧ after.find? s.id = before.find? s.id ∧
      before.find? c.id = some (.ofList [⟨"/b"⟩, ⟨"/c"⟩]) ∧ after.find? c.id = some ∅ ∧
      before.find? d.id = some ∅ ∧ after.find? d.id = some (.ofList [⟨"/c"⟩]) ∧
      (Resolver.mk .strict [b]).resolveAll.enabled.find? b.id = before.find? b.id := by
  intro b x c d e s before after
  have hids : ([x, b, c, d, e, s].map Candidate.id).Nodup := by decide
  have hperm : [x, b, c, d, e, s].Perm (x :: [b, c, d, e, s]) := .refl _
  have hregion {a : Candidate} (ha : a ∈ [x, b, c, d, e, s]) :
      a.id ∈ ((Resolver.mk .strict [x, b, c, d, e, s]).walk x.keys).region ↔
        a.IsReached [x, b, c, d, e, s] x.keys := Resolver.mem_region_walk hids ha
  have hbetter : b.Better x := by unfold Candidate.Better; decide
  have hreached : b.IsReached [x, b, c, d, e, s] x.keys :=
    (hregion (by simp)).1 (by decide +kernel)
  have hstranger : ¬ s.IsReached [x, b, c, d, e, s] x.keys :=
    (hregion (by simp)).not.1 (by decide +kernel)
  have hsame (a : Candidate) (ha : a.element.dynamic) : a ∈ [b] ↔ a ∈ [b, c, d, e, s] := by
    refine ⟨fun h => List.mem_singleton.1 h ▸ List.mem_cons_self, fun h => ?_⟩
    have hdeclared : ∀ a ∈ [c, d, e, s], a.element.dynamic = false := by decide
    refine List.mem_singleton.2 ((List.mem_cons.1 h).resolve_right fun h => ?_)
    simp [hdeclared a h] at ha
  obtain ⟨hup, hfar, _, hdynamic⟩ := resolveAll_undisturbed .strict hids hperm
  exact ⟨hids, hperm, hbetter, hreached, hup b (by simp) hbetter, hstranger,
    hfar s (by simp) hstranger, by decide +kernel, by decide +kernel, by decide +kernel,
    by decide +kernel, hdynamic [b] (by decide) hsame b (by simp) rfl⟩

end ServletContainer
