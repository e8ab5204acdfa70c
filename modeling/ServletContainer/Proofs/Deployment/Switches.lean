import ServletContainer.Proofs.Deployment.Effects

/-! No effect occurs twice (`nodup_effects`). At one post, at most one element is switched off, and after
that at most one is switched on (`filter_effects_post`). -/
namespace ServletContainer

def Effect.post? : Effect → Option Post
  | .activate e p _ => some (e.id, p)
  | .deactivate e p _ => some (e.id, p)
  | _ => none

namespace Deployment

variable {before after : Deployment} {refresh : OrdSet ContextPath} {id : ElementId} {post : Post}
  {f : Effect}

theorem post?_of_mem_switchEffects (hb : before.Keyed) (ha : after.Keyed)
    (hf : f ∈ switchEffects before after id) : ∃ p, f.post? = some (id, p) := by
  rcases mem_switchEffects.1 hf with ⟨s, hs, p, _, rfl⟩ | ⟨s, hs, p, _, rfl⟩
  · exact ⟨p, by rw [Effect.post?, hb id s hs]⟩
  · exact ⟨p, by rw [Effect.post?, ha id s hs]⟩

theorem nodup_switchEffects (before after : Deployment) (id : ElementId) :
    (switchEffects before after id).Nodup := by
  have hmap {d other : Deployment} {mk : ContextPath → Effect} (hmk : ∀ p q, mk p = mk q → p = q) :
      ((d.enabledOnlyIn other (isReplaced before after id) id).map mk).Nodup :=
    ((OrdSet.nodup_elems _).filter _).map hmk
  unfold switchEffects
  refine List.nodup_append.2 ⟨?off, ?on, ?apart⟩
  case off =>
    split
    · exact hmap fun _ _ h => (Effect.deactivate.inj h).2.1
    · exact .nil
  case on =>
    split
    · exact hmap fun _ _ h => (Effect.activate.inj h).2.1
    · exact .nil
  case apart =>
    intro f hf g hg
    split at hf <;> split at hg <;> simp only [List.mem_map, List.not_mem_nil] at hf hg
    obtain ⟨_, _, rfl⟩ := hf
    obtain ⟨_, _, rfl⟩ := hg
    exact nofun

theorem nodup_effects (hb : before.Coherent) (ha : after.Coherent) (refresh : OrdSet ContextPath) :
    (effects before after refresh).Nodup := by
  have hpaths {d : Deployment} {p : ContextPath → Bool} {mk : ContextPath → Effect}
      (hmk : ∀ p q, mk p = mk q → p = q) : ((d.contexts.paths.filter p).map mk).Nodup :=
    (d.contexts.physical.nodup_keys.filter _).map hmk
  have hcontexts {d : Deployment} (hd : d.Coherent) (other : Deployment) (mk : LogicalContext → Effect)
      (hmk : ∀ c o, mk c = mk o → c.id = o.id) :
      ((d.contexts.logical.values.filter (isMoved other)).map mk).Nodup := by
    have hids := List.pairwise_map.1 hd.wellFormed.nodup_values
    exact List.pairwise_map.2 ((hids.filter _).imp fun hne heq => hne (hmk _ _ heq))
  have hdestroyed := hpaths (d := before) (p := fun p => !after.contexts.physical.contains p)
    fun _ _ h => Effect.destroyPhysical.inj h
  have hcreated := hpaths (d := after) (p := fun p => !before.contexts.physical.contains p)
    fun _ _ h => Effect.createPhysical.inj h
  have hunbound := hcontexts hb after (fun c => .unbindContext c.id c.path) fun _ _ h =>
    (Effect.unbindContext.inj h).1
  have hbound := hcontexts ha before .bindContext fun _ _ h =>
    congrArg (·.id) (Effect.bindContext.inj h)
  have hswitched : ((idsOf before after).flatMap (switchEffects before after)).Nodup := by
    refine List.nodup_flatMap.2 ⟨fun id _ => nodup_switchEffects before after id, ?_⟩
    refine (OrdSet.nodup_elems _).imp fun {i j} hne f hi hj => hne ?_
    obtain ⟨p, hp⟩ := post?_of_mem_switchEffects hb.keyed ha.keyed hi
    obtain ⟨q, hq⟩ := post?_of_mem_switchEffects hb.keyed ha.keyed hj
    exact congrArg Prod.fst (Option.some.inj (hp.symm.trans hq))
  have hlists (paths : OrdSet ContextPath) : ((paths.elems.filter after.contexts.physical.contains).map
      fun p => Effect.updateFilters p (after.enabledFilters p)).Nodup :=
    ((OrdSet.nodup_elems _).filter _).map fun _ _ h => (Effect.updateFilters.inj h).1
  refine (sortBy_perm _ _).nodup_iff.2 ?_
  simp only [List.nodup_append]
  refine ⟨⟨⟨⟨⟨hdestroyed, hcreated, ?_⟩, hunbound, ?_⟩, hbound, ?_⟩, hswitched, ?_⟩, hlists _, ?_⟩
  -- effects of different kinds are different
  all_goals
    rintro f hf _ hg rfl
    cases f <;> simp [mem_switchEffects] at hf hg

/-- Who is enabled at the post, and in the other deployment is not there as the same copy. -/
def onlyAt (d other : Deployment) (post : Post) : Option Deployed :=
  (d.elements.find? post.1).filter fun _ =>
    post.2 ∈ d.enabledOnlyIn other (isReplaced d other post.1) post.1

/-- Whoever leaves the post is switched off there, then whoever comes to it is switched on. -/
def switchAt (before after : Deployment) (post : Post) : List Effect :=
  ((before.onlyAt after post).toList.map fun s =>
      .deactivate s.element post.2 (before.contextFor s.element post.2)) ++
    (after.onlyAt before post).toList.map fun s =>
      .activate s.element post.2 (after.contextFor s.element post.2)

theorem onlyAt_eq_some {d other : Deployment} {s : Deployed} :
    d.onlyAt other post = some s ↔ d.elements.find? post.1 = some s ∧
      post.2 ∈ d.enabledOnlyIn other (isReplaced d other post.1) post.1 := by
  simp [onlyAt, Option.filter_eq_some_iff]

theorem pairwise_switchAt (before after : Deployment) (post : Post) :
    (switchAt before after post).Pairwise fun f g => f.stage < g.stage := by
  unfold switchAt
  cases before.onlyAt after post <;> cases after.onlyAt before post <;> simp [Effect.stage]

theorem mem_switchAt (hb : before.Keyed) (ha : after.Keyed) :
    f ∈ switchAt before after post ↔ f ∈ effects before after refresh ∧ f.post? = some post := by
  simp only [switchAt, List.mem_append, List.mem_map, Option.mem_toList, onlyAt_eq_some]
  constructor
  · rintro (⟨s, ⟨hs, hp⟩, rfl⟩ | ⟨s, ⟨hs, hp⟩, rfl⟩)
    · exact ⟨deactivate_mem_effects.2 ⟨_, s, hs, hp, rfl, rfl⟩, by rw [Effect.post?, hb _ s hs]⟩
    · rw [isReplaced_comm] at hp
      exact ⟨activate_mem_effects.2 ⟨_, s, hs, hp, rfl, rfl⟩, by rw [Effect.post?, ha _ s hs]⟩
  · rintro ⟨hf, hpost⟩
    cases f with
    | deactivate e p c =>
      obtain ⟨id, s, hs, hp, rfl, rfl⟩ := deactivate_mem_effects.1 hf
      obtain rfl : (id, p) = post := by simpa [Effect.post?, hb id s hs] using hpost
      exact .inl ⟨s, ⟨hs, hp⟩, rfl⟩
    | activate e p c =>
      obtain ⟨id, s, hs, hp, rfl, rfl⟩ := activate_mem_effects.1 hf
      obtain rfl : (id, p) = post := by simpa [Effect.post?, ha id s hs] using hpost
      rw [isReplaced_comm] at hp
      exact .inr ⟨s, ⟨hs, hp⟩, rfl⟩
    | _ => cases hpost

theorem filter_effects_post (hb : before.Coherent) (ha : after.Coherent)
    (refresh : OrdSet ContextPath) (post : Post) :
    (effects before after refresh).filter (fun f => f.post? = some post) =
      switchAt before after post := by
  have hsorted := pairwise_switchAt before after post
  have hperm : ((effects before after refresh).filter (fun f => f.post? = some post)).Perm
      (switchAt before after post) := by
    refine (List.perm_ext_iff_of_nodup ((nodup_effects hb ha refresh).filter _)
      (hsorted.imp fun h heq => h.ne (congrArg _ heq))).2 fun f => ?_
    rw [mem_switchAt hb.keyed ha.keyed, List.mem_filter, decide_eq_true_iff]
  exact eq_of_perm_of_pairwise hperm ((pairwise_effects before after refresh).filter _) hsorted

end Deployment

end ServletContainer
