import ServletContainer.Proofs.Dispatch.Plan
import ServletContainer.Proofs.Element.Builder

/-! What a table selects. Of the mounts that contain a request path it is the one with the longest path
(`Deployment.select_eq_some_iff`), of the servlets that match a path below a mount the one that outdoes
all others (`Mount.select_eq_some_iff`), and of the error pages the one that holds the most specific key
(`Mount.Decided.errorPage_eq`). No two elements of one namespace that are enabled in a mount have a slot
in common (`Deployment.Sound.eq_of_mem_slots`), so that only regular expressions leave ties to decide. -/
namespace ServletContainer

def Table.Selects (t : Table) (path : String) (m : Mount) : Prop :=
  m ∈ t.mounts ∧ m.path.Contains path ∧ ∀ n ∈ t.mounts, n.path.Contains path → n ≠ m →
    n.path.text.utf8ByteSize < m.path.text.utf8ByteSize

namespace Deployment

section Mounts

variable {d : Deployment} {m : Mount} {path : String} {fs : Files} {plan : Plan}

theorem eq_of_path_eq {n : Mount} (hm : m ∈ d.table.mounts) (hn : n ∈ d.table.mounts)
    (h : m.path = n.path) : m = n := by
  obtain ⟨p, rfl⟩ := mem_table_mounts hm
  obtain ⟨q, rfl⟩ := mem_table_mounts hn
  exact congrArg d.mountAt h

theorem pairwise_mounts (d : Deployment) :
    d.table.mounts.Pairwise fun m n => n.path.text.utf8ByteSize ≤ m.path.text.utf8ByteSize := by
  refine List.pairwise_map.2 ((pairwise_sortBy ?_ ?_ _).imp of_decide_eq_true)
  · intro p q
    simpa using Nat.le_total ..
  · intro p q r hpq hqr
    exact decide_eq_true ((of_decide_eq_true hqr).trans (of_decide_eq_true hpq))

theorem selects_of_select (h : d.table.select path = some m) : d.table.Selects path m := by
  obtain ⟨hcontains, as, bs, hall, has⟩ := List.find?_eq_some_iff_append.1 h
  rw [ContextPath.isSome_below_iff] at hcontains
  have hmem : m ∈ d.table.mounts := hall ▸ List.mem_append_right as List.mem_cons_self
  refine ⟨hmem, hcontains, fun n hn hnpath hne => ?_⟩
  have hafter : n ∈ bs := by
    rw [hall] at hn
    rcases List.mem_append.1 hn with hn | hn
    · have houtside := has n hn
      rw [Bool.not_eq_true', ← Bool.not_eq_true, ContextPath.isSome_below_iff] at houtside
      exact absurd hnpath houtside
    · exact (List.mem_cons.1 hn).resolve_left hne
  have hle : n.path.text.utf8ByteSize ≤ m.path.text.utf8ByteSize := by
    have hsorted := d.pairwise_mounts
    rw [hall, List.pairwise_append, List.pairwise_cons] at hsorted
    exact hsorted.2.1.1 n hafter
  have hsize : n.path.text.utf8ByteSize ≠ m.path.text.utf8ByteSize := fun hsize =>
    hne (eq_of_path_eq hn hmem (hnpath.eq_of_size hcontains hsize))
  omega

theorem select_eq_none_iff :
    d.table.select path = none ↔ ∀ m ∈ d.table.mounts, ¬ m.path.Contains path := by
  simp only [Table.select, List.find?_eq_none, ContextPath.isSome_below_iff]

theorem select_eq_some_iff : d.table.select path = some m ↔ d.table.Selects path m := by
  refine ⟨selects_of_select, fun ⟨hm, hcontains, hlonger⟩ => ?_⟩
  cases hn : d.table.select path with
  | none => exact absurd hcontains (select_eq_none_iff.1 hn m hm)
  | some n =>
    obtain ⟨hmem, hncontains, hnlonger⟩ := selects_of_select hn
    by_contra hne
    have hnm : n ≠ m := fun h => hne (congrArg some h)
    have hlt := hlonger n hmem hncontains hnm
    have hgt := hnlonger m hm hcontains (Ne.symm hnm)
    omega

theorem compose_eq_some_iff : d.table.compose fs path = some plan ↔
    ∃ m relative, d.table.Selects path m ∧ path = m.path.lead ++ relative ∧
      plan = Plan.inMount fs d.table m relative := by
  unfold Table.compose
  cases h : d.table.select path with
  | none =>
    simp only [reduceCtorEq, false_iff]
    rintro ⟨m, _, hm, _⟩
    cases h.symm.trans (select_eq_some_iff.2 hm)
  | some n =>
    have hn := selects_of_select h
    simp only [Option.map_eq_some_iff, ContextPath.below_eq_some_iff]
    constructor
    · rintro ⟨relative, ⟨_, hpath⟩, rfl⟩
      exact ⟨n, relative, hn, hpath, rfl⟩
    · rintro ⟨m, relative, hm, hpath, rfl⟩
      cases h.symm.trans (select_eq_some_iff.2 hm)
      exact ⟨relative, ⟨hn.2.1, hpath⟩, rfl⟩

theorem compose_eq_none_iff : d.table.compose fs path = none ↔ d.table.select path = none := by
  constructor
  · intro h
    by_contra hsome
    obtain ⟨m, hm⟩ := Option.ne_none_iff_exists'.1 hsome
    have hselects := selects_of_select hm
    obtain ⟨relative, hpath, _⟩ := hselects.2.1.exists_relative
    cases h.symm.trans (compose_eq_some_iff.2 ⟨m, relative, hselects, hpath, rfl⟩)
  · intro h
    rw [Table.compose, h]

end Mounts

end Deployment

namespace Mount

section Servlets

variable {m : Mount} {path : String} {s t : ActiveServlet} {pm pn : PatternMatch}

/-- No two servlets match a path in the same way, unless it is by regular expressions. -/
def Unambiguous (m : Mount) : Prop :=
  ∀ path, ∀ s ∈ m.servlets, ∀ t ∈ m.servlets, ∀ pm pn, s.element.matchPath path = some pm →
    t.element.matchPath path = some pn → pm.kind = pn.kind → pm.kind ≠ .regex → s = t

def Outdoes (s : ActiveServlet) (pm : PatternMatch) (t : ActiveServlet) (pn : PatternMatch) : Prop :=
  pm.kind.Beats pn.kind ∨
    pm.kind = .regex ∧ pn.kind = .regex ∧ s.element.tieBreak.lt t.element.tieBreak

theorem Outdoes.asymm (h : Outdoes s pm t pn) : ¬ Outdoes t pn s pm := by
  have hirrefl (k : MatchKind) : ¬ k.Beats k := fun h => MatchKind.lt_irrefl k h.lt
  rcases h with h | ⟨hm, hn, h⟩
  · rintro (h' | ⟨hn, hm, _⟩)
    · exact hirrefl _ (h.trans h')
    · exact hirrefl _ (hm ▸ hn ▸ h)
  · rintro (h' | ⟨_, _, h'⟩)
    · exact hirrefl _ (hm ▸ hn ▸ h')
    · exact TieBreak.lt_irrefl _ (TieBreak.lt_trans h h')

theorem select_eq_none_iff :
    m.select path = none ↔ ∀ s ∈ m.servlets, s.element.matchPath path = none := by
  simp [select_eq_foldl, foldl_keepBest_eq_none, List.filterMap_eq_nil_iff]

theorem outdoes_of_select (hr : Element.Ranked (m.servlets.map (·.element))) (hu : m.Unambiguous)
    (h : m.select path = some (s, pm)) (ht : t ∈ m.servlets) (hne : t ≠ s)
    (hn : t.element.matchPath path = some pn) : Outdoes s pm t pn := by
  obtain ⟨hs, hm⟩ := select_eq_some h
  rw [select_eq_foldl] at h
  obtain ⟨as, bs, hall, has, hbs⟩ := exists_of_foldl_keepBest h
    (fun _ _ _ => MatchKind.lt_trans) (fun _ _ _ => MatchKind.not_lt_trans)
  have hranked : (as ++ (s, pm) :: bs).Pairwise fun a b =>
      a.1.element.tieBreak.lt b.1.element.tieBreak := by
    rw [← hall, List.pairwise_filterMap]
    refine (List.pairwise_map.1 hr).imp fun {a b} hab x hx y hy => ?_
    obtain ⟨_, _, rfl⟩ := Option.map_eq_some_iff.1 hx
    obtain ⟨_, _, rfl⟩ := Option.map_eq_some_iff.1 hy
    exact hab
  have hmem : (t, pn) ∈ as ++ (s, pm) :: bs :=
    hall ▸ List.mem_filterMap.2 ⟨t, ht, by rw [hn, Option.map_some]⟩
  rcases List.mem_append.1 hmem with hbefore | hafter
  · exact .inl (MatchKind.lt_iff_beats.1 (has _ hbefore))
  · have hafter : (t, pn) ∈ bs :=
      (List.mem_cons.1 hafter).resolve_left fun heq => hne (Prod.mk.inj heq).1
    rcases MatchKind.lt_or_eq_or_lt pn.kind pm.kind with hlt | heq | hlt
    · exact .inl (MatchKind.lt_iff_beats.1 hlt)
    · have hregex : pm.kind = .regex := by
        by_contra hnot
        exact hne (hu path s hs t ht pm pn hm hn heq.symm hnot).symm
      rw [List.pairwise_append, List.pairwise_cons] at hranked
      exact .inr ⟨hregex, heq.trans hregex, hranked.2.1.1 _ hafter⟩
    · exact absurd hlt (hbs _ hafter)

/-- Of the servlets that match a path the one is selected that outdoes all others. -/
theorem select_eq_some_iff (hr : Element.Ranked (m.servlets.map (·.element))) (hu : m.Unambiguous) :
    m.select path = some (s, pm) ↔ s ∈ m.servlets ∧ s.element.matchPath path = some pm ∧
      ∀ t ∈ m.servlets, t ≠ s → ∀ pn, t.element.matchPath path = some pn → Outdoes s pm t pn := by
  constructor
  · intro h
    obtain ⟨hs, hm⟩ := select_eq_some h
    exact ⟨hs, hm, fun t ht hne pn hn => outdoes_of_select hr hu h ht hne hn⟩
  · rintro ⟨hs, hm, hbest⟩
    cases h : m.select path with
    | none => cases hm.symm.trans (select_eq_none_iff.1 h s hs)
    | some found =>
      obtain ⟨t, pn⟩ := found
      obtain ⟨ht, hn⟩ := select_eq_some h
      by_cases hne : t = s
      · subst hne
        rw [Option.some.inj (hn.symm.trans hm)]
      · exact absurd (hbest t ht hne pn hn) (outdoes_of_select hr hu h hs (Ne.symm hne) hm).asymm

theorem not_beats_of_select (hr : Element.Ranked (m.servlets.map (·.element))) (hu : m.Unambiguous)
    (h : m.select path = some (s, pm)) (ht : t ∈ m.servlets) {u : UrlPattern}
    (hpattern : u ∈ t.element.patterns.urlPatterns) {n : PatternMatch}
    (hn : u.matches? path = some n) : ¬ n.kind.Beats pm.kind := by
  intro hbeats
  cases hbest : t.element.patterns.bestMatch path with
  | none => cases hn.symm.trans (Patterns.bestMatch_eq_none hbest u hpattern)
  | some pn =>
    have hnot : ¬ pn.kind.lt n.kind := by
      rcases Patterns.bestMatch_eq_some hbest with ⟨_, _, _, hall⟩ | ⟨_, hnone⟩
      · exact hall u hpattern n hn
      · rw [hnone] at hpattern
        cases hpattern
    by_cases hts : t = s
    · subst hts
      cases hbest.symm.trans (select_eq_some h).2
      exact hnot hbeats.lt
    · rcases outdoes_of_select hr hu h ht hts hbest with hpm | ⟨hpm, hpn, _⟩
      · exact hnot (hbeats.trans hpm).lt
      · exact hnot (hpn.trans hpm.symm ▸ hbeats.lt)

end Servlets

end Mount

namespace Element

variable {e f : Element} {k : ErrorKey} {l : String} {u : UrlPattern}

def Answers (e : Element) (k : ErrorKey) (l : String) : Prop :=
  ∃ keys, e.details = .errorPage keys l ∧ k ∈ keys

/-- An error page with the same location, and with the same keys in another order. -/
def Reorders (e f : Element) : Prop :=
  ∃ keys keys' l, e.details = .errorPage keys l ∧ f.details = .errorPage keys' l ∧ keys.Perm keys'

theorem Reorders.answers_iff (h : e.Reorders f) : e.Answers k l ↔ f.Answers k l := by
  obtain ⟨keys, keys', l', he, hf, hperm⟩ := h
  simp only [Answers, he, hf, Details.errorPage.injEq]
  constructor
  · rintro ⟨_, ⟨rfl, rfl⟩, hk⟩
    exact ⟨keys', ⟨rfl, rfl⟩, hperm.mem_iff.1 hk⟩
  · rintro ⟨_, ⟨rfl, rfl⟩, hk⟩
    exact ⟨keys, ⟨rfl, rfl⟩, hperm.mem_iff.2 hk⟩

theorem Answers.mem_slots (h : e.Answers k l) : .error k ∈ e.slots := by
  obtain ⟨keys, he, hk⟩ := h
  simp [slots, he, hk]

theorem Answers.kind (h : e.Answers k l) : e.kind = .errorPage := by
  obtain ⟨_, he, _⟩ := h
  rw [Element.kind, he]
  rfl

theorem Answers.eq {k' : ErrorKey} {l' : String} (h : e.Answers k l) (h' : e.Answers k' l') :
    l = l' := by
  obtain ⟨_, he, _⟩ := h
  obtain ⟨_, he', _⟩ := h'
  exact (Details.errorPage.inj (he.symm.trans he')).2

end Element

namespace Mount

section ErrorPages

variable {m m' : Mount} {kind : Option String} {status n : Nat} {k : ErrorKey} {l l' : String}

def Answers (m : Mount) (k : ErrorKey) (l : String) : Prop := ∃ e ∈ m.errorPages, e.Answers k l

/-- No error key is held by pages with different locations. -/
def Decided (m : Mount) : Prop := ∀ k l l', m.Answers k l → m.Answers k l' → l = l'

/-- The same error pages and keys, perhaps in another order. -/
def SamePages (m m' : Mount) : Prop :=
  ∃ pages : List Element, pages.Perm m.errorPages ∧ List.Forall₂ Element.Reorders pages m'.errorPages

/-- The location of the first error page that holds the key. -/
def located (m : Mount) (k : ErrorKey) : Option String :=
  (m.errorKeys.find? (·.1 = k)).map (·.2)

def statusClass (status : Nat) : Option ErrorKey :=
  if 400 ≤ status ∧ status ≤ 499 then some .clientErrors
  else if 500 ≤ status ∧ status ≤ 599 then some .serverErrors
  else none

theorem mem_errorKeys : (k, l) ∈ m.errorKeys ↔ m.Answers k l := by
  simp only [errorKeys, Answers, Element.Answers, List.mem_flatMap]
  refine exists_congr fun e => and_congr_right fun _ => ?_
  cases e.details <;> simp [and_comm]

theorem located_eq_none_iff : m.located k = none ↔ ∀ l, ¬ m.Answers k l := by
  simp only [located, Option.map_eq_none_iff, List.find?_eq_none, decide_eq_true_eq, ← mem_errorKeys]
  exact ⟨fun h l hl => h _ hl rfl, fun h x hx hk => h x.2 (hk ▸ hx)⟩

theorem answers_of_located (h : m.located k = some l) : m.Answers k l := by
  obtain ⟨⟨k', l'⟩, hfind, rfl⟩ := Option.map_eq_some_iff.1 h
  obtain rfl : k' = k := by simpa using List.find?_some hfind
  exact mem_errorKeys.1 (List.mem_of_find?_eq_some hfind)

theorem Decided.located_eq_some_iff (hm : m.Decided) : m.located k = some l ↔ m.Answers k l := by
  refine ⟨answers_of_located, fun h => ?_⟩
  cases hk : m.located k with
  | none => exact absurd h (located_eq_none_iff.1 hk l)
  | some l' => rw [hm k l l' h (answers_of_located hk)]

theorem score_eq_some_iff : score kind status k = some n ↔
    n = 3 ∧ kind.map .exception = some k ∨ n = 2 ∧ k = .code status ∨
      n = 1 ∧ statusClass status = some k := by
  unfold statusClass
  cases k with
  | exception e => cases kind <;> simp [score, ErrorKey.statusMatch] <;> grind
  | _ => cases kind <;> simp [score, ErrorKey.statusMatch] <;> grind

theorem errorPage_eq_foldl (m : Mount) (kind : Option String) (status : Nat) :
    m.errorPage kind status =
      ((m.errorKeys.filterMap fun k => (score kind status k.1).map (·, k.2)).foldl
        (keepBest fun b a => b.1 < a.1) none).map (·.2) := by
  rw [errorPage, List.foldl_filterMap]
  congr 2
  funext best k
  cases h : score kind status k.1 <;> rcases best with _ | ⟨b, l⟩ <;> simp [preferPage, keepBest, h]

theorem score_eq_none (h : m.errorPage kind status = none) (hk : m.Answers k l) :
    score kind status k = none := by
  rw [errorPage_eq_foldl, Option.map_eq_none_iff, foldl_keepBest_eq_none,
    List.filterMap_eq_nil_iff] at h
  exact Option.map_eq_none_iff.1 (h (k, l) (mem_errorKeys.2 hk))

theorem exists_of_errorPage (h : m.errorPage kind status = some l) :
    ∃ k n, m.Answers k l ∧ score kind status k = some n ∧
      ∀ k' l' n', m.Answers k' l' → score kind status k' = some n' → n' ≤ n := by
  rw [errorPage_eq_foldl] at h
  obtain ⟨⟨n, l⟩, hbest, rfl⟩ := Option.map_eq_some_iff.1 h
  obtain ⟨⟨k, l'⟩, hk, hn⟩ := List.mem_filterMap.1 (mem_of_foldl_keepBest hbest)
  obtain ⟨_, hscore, heq⟩ := Option.map_eq_some_iff.1 hn
  cases heq
  refine ⟨k, n, mem_errorKeys.1 hk, hscore, fun k' l' n' hk' hn' => ?_⟩
  have hworse := worse_of_foldl_keepBest hbest
    (fun _ _ _ hab hbc => decide_eq_true ((of_decide_eq_true hab).trans (of_decide_eq_true hbc)))
    (fun a b c hab hbc => by
      simp only [decide_eq_true_eq, Nat.not_lt] at *
      exact hbc.trans hab)
    (List.mem_filterMap.2 ⟨(k', l'), mem_errorKeys.2 hk', by rw [hn', Option.map_some]⟩)
  rcases hworse with heq | hlt | hlt
  · exact (Prod.mk.inj heq).1.le
  · exact (of_decide_eq_true hlt).le
  · simpa using hlt

/-- An error is answered by the page for its kind, or else by the one for its status, or else by the one
for the class of the status. -/
theorem Decided.errorPage_eq (hm : m.Decided) (kind : Option String) (status : Nat) :
    m.errorPage kind status = ((kind.map .exception).bind m.located).or
      ((m.located (.code status)).or ((statusClass status).bind m.located)) := by
  have hkind (k : ErrorKey) : kind.map .exception = some k → score kind status k = some 3 :=
    fun h => score_eq_some_iff.2 (.inl ⟨rfl, h⟩)
  have hcode : score kind status (.code status) = some 2 :=
    score_eq_some_iff.2 (.inr (.inl ⟨rfl, rfl⟩))
  have hclass (k : ErrorKey) : statusClass status = some k → score kind status k = some 1 :=
    fun h => score_eq_some_iff.2 (.inr (.inr ⟨rfl, h⟩))
  cases h : m.errorPage kind status with
  | none =>
    have hno {k : ErrorKey} {n : Nat} (hs : score kind status k = some n) : m.located k = none :=
      located_eq_none_iff.2 fun l hl => by cases (score_eq_none h hl).symm.trans hs
    rw [Option.bind_eq_none_iff.2 fun k hk => hno (hkind k hk), hno hcode,
      Option.bind_eq_none_iff.2 fun k hk => hno (hclass k hk)]
    rfl
  | some l =>
    obtain ⟨k, n, hk, hn, hbest⟩ := exists_of_errorPage h
    have hl : m.located k = some l := hm.located_eq_some_iff.2 hk
    have hno {k' : ErrorKey} {n' : Nat} (hs : score kind status k' = some n') (hlt : n < n') :
        m.located k' = none :=
      located_eq_none_iff.2 fun l' hl' => Nat.not_le_of_gt hlt (hbest k' l' n' hl' hs)
    rcases score_eq_some_iff.1 hn with ⟨rfl, hk⟩ | ⟨rfl, rfl⟩ | ⟨rfl, hk⟩
    · rw [hk, Option.bind_some, hl]
      rfl
    · rw [Option.bind_eq_none_iff.2 fun k hk => hno (hkind k hk) (by decide), hl]
      rfl
    · rw [Option.bind_eq_none_iff.2 fun k hk => hno (hkind k hk) (by decide),
        hno hcode (by decide), hk, Option.bind_some, hl]
      rfl

theorem SamePages.answers_iff (h : m.SamePages m') : m'.Answers k l ↔ m.Answers k l := by
  obtain ⟨pages, hperm, hpages⟩ := h
  have hsame {es fs : List Element} (h : List.Forall₂ Element.Reorders es fs) :
      (∃ f ∈ fs, f.Answers k l) ↔ ∃ e ∈ es, e.Answers k l := by
    induction h with
    | nil => simp
    | cons hef _ ih => simp [hef.answers_iff, ih]
  rw [Answers, hsame hpages]
  exact exists_congr fun e => and_congr_left fun _ => hperm.mem_iff

/-- The order of the pages, and of the keys of each page, does not matter. -/
theorem Decided.errorPage_congr (hm : m.Decided) (h : m.SamePages m') (kind : Option String)
    (status : Nat) : m'.errorPage kind status = m.errorPage kind status := by
  have hm' : m'.Decided := fun k l l' hl hl' => hm k l l' (h.answers_iff.1 hl) (h.answers_iff.1 hl')
  have hlocated : m'.located = m.located := funext fun k => Option.ext fun l => by
    rw [hm'.located_eq_some_iff, hm.located_eq_some_iff, h.answers_iff]
  rw [hm'.errorPage_eq, hm.errorPage_eq, hlocated]

end ErrorPages

end Mount

namespace Deployment

section Slots

variable {d : Deployment} {p : ContextPath} {e f : Element} {x : Slot}

/-- No two enabled elements of one namespace have a slot in common in a mount. -/
theorem Sound.eq_of_mem_slots (hs : d.Sound) (hk : d.Keyed) (he : e ∈ d.enabledAt p)
    (hf : f ∈ d.enabledAt p) (hx : x ∈ e.slots) (hy : x ∈ f.slots)
    (hspace : Namespace.ofKind e.kind = .ofKind f.kind) : e = f := by
  obtain ⟨i, s, hi, hps, rfl⟩ := mem_enabledAt.1 he
  obtain ⟨j, t, hj, hpt, rfl⟩ := mem_enabledAt.1 hf
  let key : SlotKey := ⟨p, .ofKind s.element.kind, x⟩
  have hholds {i : ElementId} {s : Deployed} (hi : d.elements.find? i = some s)
      (hp : p ∈ s.enabledIn.elems) (hx : x ∈ s.element.slots)
      (hkind : key.space = .ofKind s.element.kind) :
      Enabling.Holds (fun id p => p ∈ (d.arbitrated id).elems) (d.candidateOf s.element) key := by
    have hid : (d.candidateOf s.element).id = i := hk i s hi
    refine ⟨Candidate.mem_keys.2 ⟨hs.mem_physicalOf hk hi hp, hkind, hx⟩, ?_⟩
    rw [← enabledIn_of_find? hi] at hp
    rcases hs i with hempty | harb
    · rw [hempty] at hp
      cases hp
    · rw [hid, ← harb]
      exact hp
  have hsame : d.candidateOf s.element = d.candidateOf t.element :=
    (stable_arbitrated hk).holder_unique hk.nodup (candidateOf_mem hi) (candidateOf_mem hj)
      (hholds hi hps hx rfl) (hholds hj hpt hy hspace)
  exact congrArg Candidate.element hsame

theorem isPreprocessor_of_kind (h : e.kind ≠ .filter) : e.isPreprocessor = false :=
  Bool.eq_false_of_not_eq_true fun hpre => h (Element.kind_of_isPreprocessor hpre)

theorem mem_servlets_mountAt {s : ActiveServlet} : s ∈ (d.mountAt p).servlets ↔
    s.element ∈ d.enabledAt p ∧ (s.element.kind = .servlet ∨ s.element.kind = .resource) ∧
      s.context = d.contextFor s.element p := by
  obtain ⟨e, context⟩ := s
  simp only [mountAt, listedAt, List.mem_map, List.mem_filter, ActiveServlet.mk.injEq,
    decide_eq_true_eq, Bool.not_eq_true']
  constructor
  · rintro ⟨_, ⟨⟨he, _⟩, hkind⟩, rfl, rfl⟩
    exact ⟨he, hkind, rfl⟩
  · rintro ⟨he, hkind, rfl⟩
    have hordinary : e.isPreprocessor = false := isPreprocessor_of_kind fun hfilter => by
      rcases hkind with h | h <;> cases h.symm.trans hfilter
    exact ⟨e, ⟨⟨he, hordinary⟩, hkind⟩, rfl, rfl⟩

theorem mem_errorPages_mountAt :
    e ∈ (d.mountAt p).errorPages ↔ e ∈ d.enabledAt p ∧ e.kind = .errorPage := by
  simp only [mountAt, listedAt, List.mem_filter, decide_eq_true_eq, Bool.not_eq_true']
  constructor
  · rintro ⟨⟨he, _⟩, hkind⟩
    exact ⟨he, hkind⟩
  · rintro ⟨he, hkind⟩
    exact ⟨⟨he, isPreprocessor_of_kind fun hfilter => by cases hkind.symm.trans hfilter⟩, hkind⟩

theorem Keyed.ranked_servlets (hk : d.Keyed) (p : ContextPath) :
    Element.Ranked ((d.mountAt p).servlets.map (·.element)) := by
  simp only [mountAt, List.map_map, Function.comp_def, List.map_id']
  exact ((hk.ranked_enabledAt p).filter _).filter _

theorem Sound.unambiguous (hs : d.Sound) (hk : d.Keyed) (hread : ∀ e ∈ d.enabledAt p, e.MappingRead) :
    (d.mountAt p).Unambiguous := by
  intro path s hmem t hmem' pm pn hm hn hkind hregex
  obtain ⟨hs', hskind, hscontext⟩ := mem_servlets_mountAt.1 hmem
  obtain ⟨ht', htkind, htcontext⟩ := mem_servlets_mountAt.1 hmem'
  obtain ⟨u, hu, hum, _⟩ := (Patterns.bestMatch_eq_some hm).resolve_right fun h =>
    hregex (congrArg PatternMatch.kind h.1)
  obtain ⟨v, hv, hvn, _⟩ := (Patterns.bestMatch_eq_some hn).resolve_right fun h =>
    hregex (hkind.trans (congrArg PatternMatch.kind h.1))
  obtain rfl : u = v :=
    UrlPattern.eq_of_matches? hum hvn hkind (hread _ hs' u hu) (hread _ ht' v hv)
  have hspace {e : Element} (h : e.kind = .servlet ∨ e.kind = .resource) :
      Namespace.ofKind e.kind = .servlet := by
    rcases h with h | h <;> rw [h] <;> rfl
  have hsame : s.element = t.element :=
    hs.eq_of_mem_slots hk hs' ht' (Element.mem_slots_pattern.2 ⟨hspace hskind, hu⟩)
      (Element.mem_slots_pattern.2 ⟨hspace htkind, hv⟩) (by rw [hspace hskind, hspace htkind])
  obtain ⟨e, c⟩ := s
  obtain ⟨f, c'⟩ := t
  obtain rfl : e = f := hsame
  obtain rfl : c = d.contextFor e p := hscontext
  rw [show c' = d.contextFor e p from htcontext]

theorem Sound.eq_of_answers (hs : d.Sound) (hk : d.Keyed) (he : e ∈ d.enabledAt p)
    (hf : f ∈ d.enabledAt p) {k : ErrorKey} {l l' : String} (hek : e.Answers k l)
    (hfk : f.Answers k l') : e = f :=
  hs.eq_of_mem_slots hk he hf hek.mem_slots hfk.mem_slots (by rw [hek.kind, hfk.kind])

theorem Sound.decided (hs : d.Sound) (hk : d.Keyed) : (d.mountAt p).Decided := by
  rintro k l l' ⟨e, he, hek⟩ ⟨f, hf, hfk⟩
  obtain rfl := hs.eq_of_answers hk (mem_errorPages_mountAt.1 he).1 (mem_errorPages_mountAt.1 hf).1
    hek hfk
  exact hek.eq hfk

end Slots

end Deployment

end ServletContainer
