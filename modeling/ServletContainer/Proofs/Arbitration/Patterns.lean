import ServletContainer.Proofs.Arbitration.Groups
import ServletContainer.Proofs.Element.Builder

/-! Who competes for a pattern. A pattern is read from its own text alone, so that servlets of one mount
meet in the group of a pattern exactly if they were given the same text (`resolveAll_pattern_texts`). -/
namespace ServletContainer

theorem Candidate.pattern_mem_keys {c : Candidate} {b : Builder} {p : ContextPath} {u : UrlPattern}
    (hb : c.element.MadeFrom b) (hspace : Namespace.ofKind c.element.kind = .servlet)
    (hp : p ∈ c.physical) : ⟨p, .servlet, .pattern u⟩ ∈ c.keys ↔ u.Readable ∧ u.text ∈ b.urlPatterns := by
  rw [Candidate.mem_keys, Element.mem_slots_pattern, hb.mem_urlPatterns]
  simp [hp, hspace]

/-- A text that can be read as a pattern is the pattern's own, and no other text is read as it. So among
the candidates of an arbitration, two servlets or resources that are mapped to one mount are in one group
there for the pattern of some text exactly if both were given this text. -/
theorem resolveAll_pattern_texts (policy : Policy) (cs : List Candidate)
    (hids : (cs.map Candidate.id).Nodup) :
    (∀ s u, UrlPattern.parse s = .ok u → u.text = s ∧ UrlPattern.parse u.text = .ok u) ∧
    (∀ s t u, UrlPattern.parse s = .ok u → UrlPattern.parse t = .ok u → s = t) ∧
    ∀ c ∈ cs, ∀ d ∈ cs, ∀ b b', c.element.MadeFrom b → d.element.MadeFrom b' →
      Namespace.ofKind c.element.kind = .servlet → Namespace.ofKind d.element.kind = .servlet →
      ∀ p ∈ c.physical, p ∈ d.physical → ∀ text,
        (∃ u g, u.text = text ∧ g ∈ (Resolver.mk policy cs).resolveAll.groups ∧
          g.key = ⟨p, .servlet, .pattern u⟩ ∧ c.id ∈ g.members ∧ d.id ∈ g.members) ↔
        text ∈ b.urlPatterns ∧ text ∈ b'.urlPatterns := by
  refine ⟨fun s u h => ?_, fun s t u hs ht => ?_, ?_⟩
  · obtain ⟨rfl, _⟩ := UrlPattern.parse_eq_ok_iff.1 h
    exact ⟨rfl, h⟩
  · exact (UrlPattern.parse_eq_ok_iff.1 hs).1.trans (UrlPattern.parse_eq_ok_iff.1 ht).1.symm
  · intro c hc d hd b b' hb hb' hcspace hdspace p hpc hpd text
    constructor
    · rintro ⟨u, g, rfl, hg, hkey, hcmem, hdmem⟩
      rw [Resolver.mem_members_iff hids hg hc, hkey,
        Candidate.pattern_mem_keys hb hcspace hpc] at hcmem
      rw [Resolver.mem_members_iff hids hg hd, hkey,
        Candidate.pattern_mem_keys hb' hdspace hpd] at hdmem
      exact ⟨hcmem.2, hdmem.2⟩
    · rintro ⟨htext, htext'⟩
      obtain ⟨u, hu, rfl⟩ := hb.exists_readable htext
      have hck := (Candidate.pattern_mem_keys hb hcspace hpc).2 ⟨hu, htext⟩
      have hdk := (Candidate.pattern_mem_keys hb' hdspace hpd).2 ⟨hu, htext'⟩
      obtain ⟨g, hg, hkey⟩ := Resolver.exists_group hids policy hc hck
      exact ⟨u, g, rfl, hg, hkey, (Resolver.mem_members_iff hids hg hc).2 (hkey ▸ hck),
        (Resolver.mem_members_iff hids hg hd).2 (hkey ▸ hdk)⟩

/-- Two servlets below one path, of which one is mapped to the path itself, too. -/
theorem resolveAll_pattern_texts_shared :
    let settings (name : String) (urls : List String) : Builder :=
      { kind := .servlet, name, source := some (.servlet (.given .echo)), urlPatterns := urls }
    let servlet (id : ElementId) (name : String) (us : List UrlPattern) : Candidate :=
      { element := { Element.catchAll id with name, patterns := .urls us }, physical := [.root] }
    let c := servlet 1 "c" [.subtree "/a", .extension "do"]
    let d := servlet 2 "d" [.exact "/a", .subtree "/a"]
    let meet (text : String) : Prop := ∃ u g, u.text = text ∧
      g ∈ (Resolver.mk .strict [c, d]).resolveAll.groups ∧
      g.key = ⟨.root, .servlet, .pattern u⟩ ∧ c.id ∈ g.members ∧ d.id ∈ g.members
    c.element.MadeFrom (settings "c" ["/a/*", "*.do"]) ∧
      d.element.MadeFrom (settings "d" ["/a", "/a/*"]) ∧ meet "/a/*" ∧ ¬ meet "/a" := by
  intro settings servlet c d meet
  have hc : c.element.MadeFrom (settings "c" ["/a/*", "*.do"]) := ⟨_, 1, rfl, .inl rfl⟩
  have hd : d.element.MadeFrom (settings "d" ["/a", "/a/*"]) := ⟨_, 2, rfl, .inl rfl⟩
  have hmeet (text : String) : meet text ↔ text ∈ ["/a/*", "*.do"] ∧ text ∈ ["/a", "/a/*"] :=
    (resolveAll_pattern_texts .strict [c, d] (by decide)).2.2 c (by simp) d (by simp) _ _ hc hd rfl rfl
      .root (by simp [c, servlet]) (by simp [d, servlet]) text
  exact ⟨hc, hd, (hmeet _).2 (by decide), fun h => absurd ((hmeet _).1 h) (by decide)⟩

end ServletContainer
