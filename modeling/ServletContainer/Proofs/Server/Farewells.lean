import ServletContainer.Proofs.Deployment.Switches
import ServletContainer.Proofs.Server.Listeners
import ServletContainer.Proofs.Server.Submission

/-! The contexts under which listeners are greeted and dismissed. A listener is greeted under the context
that serves it in the deployment in which it comes to its post, and dismissed under the one that served it
last; nobody keeps the former (`Server.words_step`). So it is told goodbye under another context exactly
if another one came to serve it while it stayed (`Server.follow_farewells_iff`). -/
namespace ServletContainer

/-- What a call says, and the context that it names. -/
def Notice.word (n : Notice) : Bool × LogicalContext := (n.up, n.view.context)

/-- Each goodbye names the context that the call before it named. -/
def Faithful (ns : List Notice) : Prop :=
  ns.IsChain fun n m => m.up = false → m.view.context.id = n.view.context.id

instance (ns : List Notice) : Decidable (Faithful ns) := inferInstanceAs (Decidable (ns.IsChain _))

namespace Effect

variable {post : Post} {f : Effect} {s : Seat}

theorem attend_of_post?_ne (h : f.post? ≠ some post) : f.attend post s = s := by
  cases f <;> simp_all [attend, post?]

theorem foldl_attend_filter (fs : List Effect) (s : Seat) :
    (fs.filter (fun f => f.post? = some post)).foldl (attend post) s = fs.foldl (attend post) s := by
  induction fs generalizing s with
  | nil => rfl
  | cons f fs ih =>
    rw [List.filter_cons]
    split
    · exact ih _
    · rename_i h
      rw [ih, List.foldl_cons, attend_of_post?_ne (by simpa using h)]

end Effect

namespace Deployment

variable {d other before after : Deployment} {post : Post} {c : LogicalContext}

def contextAt (d : Deployment) (post : Post) : Option LogicalContext :=
  (d.elements.find? post.1).bind fun s => d.contextFor s.element post.2

/-- Whether a listener is at the post that is not there, as the same copy, in the other deployment. -/
def differs (d other : Deployment) (post : Post) : Bool :=
  (d.onlyAt other post).any (·.element.kind = .listener)

/-- The calls at a post when one deployment follows another: whoever leaves is dismissed, and whoever comes
is greeted. -/
def callsAt (before after : Deployment) (post : Post) : List (Bool × LogicalContext) :=
  (if before.differs after post then (before.contextAt post).toList.map (false, ·) else []) ++
    if after.differs before post then (after.contextAt post).toList.map (true, ·) else []

theorem up_of_mem_callsAt {w : Bool × LogicalContext} (h : ¬ before.differs after post)
    (hw : w ∈ callsAt before after post) : w.1 = true := by
  rw [callsAt, if_neg h, List.nil_append] at hw
  split at hw
  · obtain ⟨c, _, rfl⟩ := List.mem_map.1 hw
    rfl
  · cases hw

theorem callsAt_of_differs (h : before.differs after post) (hc : before.contextAt post = some c) :
    ∃ ws, callsAt before after post = (false, c) :: ws ∧ ∀ w ∈ ws, w.1 = true := by
  rw [callsAt, if_pos h, hc]
  refine ⟨_, rfl, fun w hw => ?_⟩
  split at hw
  · obtain ⟨c, _, rfl⟩ := List.mem_map.1 hw
    rfl
  · cases hw

theorem differs_iff : d.differs other post ↔
    d.Attends post ∧ post.2 ∈ d.enabledOnlyIn other (isReplaced d other post.1) post.1 := by
  simp only [differs, Option.any_eq_true, onlyAt_eq_some, decide_eq_true_eq]
  constructor
  · rintro ⟨s, ⟨hs, hp⟩, hkind⟩
    exact ⟨⟨s, hs, hkind, enabledIn_of_find? hs ▸ (mem_enabledOnlyIn.1 hp).1⟩, hp⟩
  · rintro ⟨⟨s, hs, hkind, _⟩, hp⟩
    exact ⟨s, ⟨hs, hp⟩, hkind⟩

theorem Attends.of_not_differs (h : d.Attends post) (hd : d.Keyed) (hother : other.Keyed)
    (hno : ¬ d.differs other post) : other.Attends post ∧ ¬ other.differs d post := by
  have hmem : post.2 ∉ d.enabledOnlyIn other (isReplaced d other post.1) post.1 :=
    fun hmem => hno (differs_iff.2 ⟨h, hmem⟩)
  refine ⟨h.of_not_switched hother hmem hd, fun hdiffers => ?_⟩
  obtain ⟨_, hback⟩ := differs_iff.1 hdiffers
  rw [isReplaced_comm, mem_enabledOnlyIn] at hback
  refine hmem (mem_enabledOnlyIn.2 ⟨h.mem_enabledIn, .inl ?_⟩)
  exact hback.2.resolve_right (not_not.2 h.mem_enabledIn)

theorem not_differs_self (d : Deployment) (post : Post) : d.differs d post = false := by
  refine Bool.eq_false_of_not_eq_true fun h => ?_
  obtain ⟨_, hp⟩ := differs_iff.1 h
  have hsame : isReplaced d d post.1 = false := by
    unfold isReplaced
    cases d.elements.find? post.1 <;> simp
  rw [mem_enabledOnlyIn, hsame] at hp
  exact hp.2.resolve_left (by simp) hp.1

theorem callsAt_self (d : Deployment) (post : Post) : callsAt d d post = [] := by
  rw [callsAt, not_differs_self]
  rfl

theorem Coherent.contextAt_eq_some (hd : d.Coherent) (h : d.Attends post) :
    ∃ c, d.contextAt post = some c := by
  obtain ⟨s, hs, _, hp⟩ := h
  obtain ⟨c, hc, _⟩ := hd.contextFor_of_enabled hs (mem_enabledIn.2 ⟨s, hs, hp⟩)
  exact ⟨c, by rw [contextAt, hs, Option.bind_some, hc]⟩

theorem Coherent.of_onlyAt (hd : d.Coherent) {s : Deployed} (h : d.onlyAt other post = some s) :
    s.element.id = post.1 ∧ ∃ c, d.contextFor s.element post.2 = some c ∧ d.contextAt post = some c := by
  obtain ⟨hs, hp⟩ := onlyAt_eq_some.1 h
  obtain ⟨c, hc, _⟩ := hd.contextFor_of_enabled hs (mem_enabledOnlyIn.1 hp).1
  exact ⟨hd.keyed _ s hs, c, hc, by rw [contextAt, hs, Option.bind_some, hc]⟩

variable {listener found : Option (Instance Listener)}

theorem Coherent.dismissed (hd : d.Coherent) (other : Deployment) (found : Option (Instance Listener))
    (ns : List Notice) (hlistener : listener.isSome ↔ d.Attends post) :
    ∃ left ms, ((d.onlyAt other post).toList.map fun s =>
        Effect.deactivate s.element post.2 (d.contextFor s.element post.2)).foldl
          (Effect.attend post) ⟨listener, found, ns⟩ = ⟨left, found, ns ++ ms⟩ ∧
      ms.map Notice.word =
        if d.differs other post then (d.contextAt post).toList.map (false, ·) else [] := by
  cases h : d.onlyAt other post with
  | none => exact ⟨listener, [], by simp, by simp [differs, h]⟩
  | some s =>
    obtain ⟨hid, c, hc, hcontext⟩ := hd.of_onlyAt h
    have hpost : (s.element.id, post.2) = post := by rw [hid]
    have hdiffers : d.differs other post ↔ listener.isSome := by
      rw [hlistener, differs_iff]
      exact and_iff_left (onlyAt_eq_some.1 h).2
    simp only [Option.toList_some, List.map_singleton, List.foldl_cons, List.foldl_nil, hc,
      Effect.attend, if_pos hpost, hcontext]
    cases listener with
    | none =>
      exact ⟨none, [], by simp, by rw [if_neg (by simp [hdiffers])]; rfl⟩
    | some l =>
      exact ⟨none, _, rfl, by rw [if_pos (by simp [hdiffers])]; rfl⟩

theorem Coherent.greeted (hd : d.Coherent) (listener : Option (Instance Listener)) (ns : List Notice)
    (hfound : found.isSome ↔ d.differs other post) :
    ∃ ms, (((d.onlyAt other post).toList.map fun s =>
        Effect.activate s.element post.2 (d.contextFor s.element post.2)).foldl
          (Effect.attend post) ⟨listener, found, ns⟩).calls = ns ++ ms ∧
      ms.map Notice.word =
        if d.differs other post then (d.contextAt post).toList.map (true, ·) else [] := by
  cases h : d.onlyAt other post with
  | none => exact ⟨[], by simp, by simp [differs, h]⟩
  | some s =>
    obtain ⟨hid, c, hc, hcontext⟩ := hd.of_onlyAt h
    have hpost : (s.element.id, post.2) = post := by rw [hid]
    simp only [Option.toList_some, List.map_singleton, List.foldl_cons, List.foldl_nil, hc,
      Effect.attend, if_pos hpost, hcontext]
    cases found with
    | none => exact ⟨[], by simp, by rw [if_neg (by simp [← hfound])]; rfl⟩
    | some l => exact ⟨_, rfl, by rw [if_pos (by simp [← hfound])]; rfl⟩

/-- What becomes of a post, told by the calls. -/
theorem words_switchAt (hb : before.Coherent) (ha : after.Coherent)
    (hlistener : listener.isSome ↔ before.Attends post)
    (hfound : found.isSome ↔ after.differs before post) :
    (((switchAt before after post).foldl (Effect.attend post) ⟨listener, found, []⟩).calls.map
      Notice.word) = callsAt before after post := by
  obtain ⟨left, ms, hoff, hms⟩ := hb.dismissed after found [] hlistener
  obtain ⟨ms', hon, hms'⟩ := ha.greeted left ms hfound
  rw [switchAt, List.foldl_append, hoff, List.nil_append, hon, List.map_append, hms, hms']
  rfl

end Deployment

namespace Server

open Deployment

variable {s t u : Server} {i : InProcess} {b : Batch} {fs : List Effect} {post : Post}

def words (s : Server) (post : Post) : List (Bool × LogicalContext) :=
  (s.notices.filter (·.isAt post)).map Notice.word

theorem Alike.words (h : s.Alike t) (post : Post) : s.words post = t.words post := by
  rw [Server.words, h.notices, Server.words]

theorem seat_applyEffects {engine : Engine} {pool : Pool} (hi : s.engine = .inProcess i)
    (hpending : i.pending = []) (h : s.applyEffects fs = (.ok engine, pool)) :
    ∃ (j : InProcess) (found : Attendance), engine = .inProcess j ∧ ∀ post,
      ((found.lookup post).isSome ↔ ∃ f ∈ fs, f.Greets post) ∧
        j.pending.filter (·.isAt post) =
          (fs.foldl (Effect.attend post) ⟨i.listeners.lookup post, found.lookup post, []⟩).calls := by
  unfold applyEffects at h
  split at h
  · rename_i hempty
    cases h
    rw [List.isEmpty_iff.1 hempty]
    exact ⟨i, [], hi, fun post => ⟨by simp, by rw [hpending]; rfl⟩⟩
  · rw [hi] at h
    obtain ⟨hresult, hpool⟩ := Prod.mk.inj h
    obtain ⟨j, hj, rfl⟩ := exists_of_map_ok hresult
    obtain ⟨_, ch, hcheck, rfl⟩ := InProcess.apply_ok (Prod.ext hj hpool)
    refine ⟨_, ch.found, rfl, fun post => ⟨?_, ?_⟩⟩
    · rw [InProcess.found_checkAll hcheck]
      simp
    · have hseat := congrArg Seat.calls (i.seat_performAll ch.found fs post)
      simpa [InProcess.seat, hpending] using hseat

theorem words_submit (hs : s.Mirrored) (hi : s.Attended i) (b : Batch) (post : Post) :
    (s.submit b).2.words post =
      s.words post ++ callsAt s.deployment (s.submit b).2.deployment post := by
  cases hm : s.deployment.applyAll 0 b.changes with
  | error f =>
    rw [Server.submit, hm]
    simp only [callsAt_self, List.append_nil]
  | ok m =>
    have hafter : (s.deployment.rearbitrate m).1.Coherent :=
      Commits.coherent ⟨m, hm, rfl⟩ hs.coherent
    rw [submit_of_becomes hm]
    split
    · simp only [callsAt_self, List.append_nil]
      rfl
    · rename_i engine pool heq
      obtain ⟨j, found, rfl, hposts⟩ := seat_applyEffects hi.engine hi.pending heq
      obtain ⟨hfound, hcalls⟩ := hposts post
      have hcomes : (found.lookup post).isSome ↔
          (s.deployment.rearbitrate m).1.differs s.deployment post := by
        rw [hfound, exists_greets_iff hafter, differs_iff, isReplaced_comm]
      have hwords := words_switchAt hs.coherent hafter (hi.present post) hcomes
      rw [← filter_effects_post hs.coherent hafter (Change.refreshed b.changes) post,
        Effect.foldl_attend_filter, ← hcalls] at hwords
      simp only [words]
      rw [show (Server.adopt _ _ _).notices = s.notices ++ j.pending from rfl, List.filter_append,
        List.map_append, hwords]
      rfl

theorem Tending.of_submission (h : s.Tending) {a : Step} (hsub : s.submission a = some (u, b)) :
    u.Mirrored ∧ ∃ i, u.Attended i := by
  obtain ⟨i, hi, _⟩ := h.attended
  cases a with
  | start =>
    simp only [submission] at hsub
    split at hsub
    · cases hsub
    · unfold launching at hsub
      split at hsub
      · cases hsub
      · rename_i configured hconfigure
        split at hsub
        · cases hsub
        · rename_i engine hstart
          obtain ⟨j, hj, _, hmirrored⟩ := hi.engineStarted h.mirrored hconfigure hstart
          unfold bootstrapping at hsub
          split at hsub <;> cases hsub
          exact ⟨⟨hmirrored.coherent, hmirrored.tended, hmirrored.mirror⟩, j,
            hj.engine, hj.pending, hj.turns, hj.present⟩
  | stop =>
    simp only [submission] at hsub
    split at hsub <;> cases hsub
    exact ⟨h.mirrored, i, hi⟩
  | submit b =>
    cases hsub
    exact ⟨h.mirrored, i, hi⟩
  | elsewhere => cases hsub

/-- With each step come the calls that lead from the deployment before to the one after. -/
theorem words_step (h : s.Tending) (a : Step) (post : Post) :
    (s.step a).words post = s.words post ++ callsAt s.deployment (s.step a).deployment post := by
  have hfollows := s.follows_step a
  cases hsub : s.submission a with
  | none =>
    rw [hsub] at hfollows
    rw [hfollows.deployment, callsAt_self, List.append_nil, hfollows.words]
  | some y =>
    obtain ⟨u, b⟩ := y
    rw [hsub] at hfollows
    obtain ⟨hu, hstep⟩ := hfollows
    obtain ⟨hmirrored, i, hi⟩ := h.of_submission hsub
    rw [hstep.words, words_submit hmirrored hi, hu.words, hu.deployment, hstep.deployment]

theorem exists_step_eq (s : Server) (c : Command) : ∃ a, (s.obey c).2 = s.step a := by
  cases c with
  | start => exact ⟨.start, rfl⟩
  | stop => exact ⟨.stop, rfl⟩
  | submit b => exact ⟨.submit b, rfl⟩
  | meanwhile pool counters nextService => exact ⟨.elsewhere s.engine pool counters nextService, rfl⟩

theorem words_obey (h : s.Tending) (c : Command) (post : Post) :
    (s.obey c).2.words post = s.words post ++ callsAt s.deployment (s.obey c).2.deployment post := by
  obtain ⟨a, ha⟩ := s.exists_step_eq c
  rw [ha, words_step h]

theorem follow_concat (s : Server) (cs : List Command) (c : Command) :
    s.follow (cs ++ [c]) = ((s.follow cs).obey c).2 := by
  rw [follow, List.foldl_append]
  rfl

theorem follow_split (s : Server) (xs : List Command) (a : Command) (ds : List Command) :
    s.follow (xs ++ a :: ds) = ((s.follow xs).obey a).2.follow ds := by
  rw [follow, List.foldl_append]
  rfl

/-- A listener comes to the post with the first command, and stays while the others are followed. -/
structure Stays (s : Server) (post : Post) (a : Command) (ds : List Command) : Prop where
  comes : (s.obey a).2.deployment.differs s.deployment post
  stays : ∀ es c, es ++ [c] <+: ds →
    ¬ ((s.obey a).2.follow es).deployment.differs ((s.obey a).2.follow (es ++ [c])).deployment post

variable {a x : Command} {cs ds : List Command}

theorem Stays.concat (h : s.Stays post a ds)
    (hx : ¬ ((s.obey a).2.follow ds).deployment.differs ((s.obey a).2.follow (ds ++ [x])).deployment
      post) : s.Stays post a (ds ++ [x]) where
  comes := h.comes
  stays es c hes := by
    rcases List.prefix_concat_iff.1 hes with heq | hes
    · obtain ⟨rfl, hc⟩ := List.append_inj' heq rfl
      cases hc
      exact hx
    · exact h.stays es c hes

theorem Stays.of_concat (h : s.Stays post a (ds ++ [x])) : s.Stays post a ds where
  comes := h.comes
  stays es c hes := h.stays es c (hes.trans (List.prefix_append ds [x]))

theorem Stays.getLast?_words (hs : s.Tending) (h : s.Stays post a ds) :
    ((s.obey a).2.follow ds).deployment.Attends post ∧
      ∃ c, (s.obey a).2.deployment.contextAt post = some c ∧
        (((s.obey a).2.follow ds).words post).getLast? = some (true, c) := by
  have ht := hs.obey a
  induction ds using List.reverseRecOn with
  | nil =>
    have hattends := (differs_iff.1 h.comes).1
    obtain ⟨c, hc⟩ := ht.mirrored.coherent.contextAt_eq_some hattends
    refine ⟨hattends, c, hc, ?_⟩
    simp only [follow, List.foldl_nil]
    rw [words_obey hs, callsAt, if_pos h.comes, hc]
    simp
  | append_singleton ds x ih =>
    obtain ⟨hattends, c, hc, hlast⟩ := ih h.of_concat
    have htended := ht.follow ds
    have hx := h.stays ds x List.prefix_rfl
    rw [follow_concat] at hx ⊢
    have hnext := (htended.obey x).mirrored.coherent.keyed
    obtain ⟨hstill, hno⟩ := hattends.of_not_differs htended.mirrored.coherent.keyed hnext hx
    refine ⟨hstill, c, hc, ?_⟩
    rw [words_obey htended, callsAt, if_neg hx, if_neg hno, List.append_nil, List.append_nil]
    exact hlast

theorem exists_stays (hs : s.Tending) (hnobody : ¬ s.deployment.Attends post)
    (h : (s.follow cs).deployment.Attends post) :
    ∃ xs a ds, cs = xs ++ a :: ds ∧ (s.follow xs).Stays post a ds := by
  induction cs using List.reverseRecOn with
  | nil => exact absurd h hnobody
  | append_singleton cs x ih =>
    have ht := hs.follow cs
    rw [follow_concat] at h
    by_cases hx : ((s.follow cs).obey x).2.deployment.differs (s.follow cs).deployment post
    · exact ⟨cs, x, [], rfl, hx, fun es c hes => by simp at hes⟩
    · have hnext := (ht.obey x).mirrored.coherent.keyed
      obtain ⟨hbefore, hno⟩ := h.of_not_differs hnext ht.mirrored.coherent.keyed hx
      obtain ⟨xs, a, ds, rfl, hstays⟩ := ih hbefore
      refine ⟨xs, a, ds ++ [x], by simp, hstays.concat ?_⟩
      rw [follow_concat, ← follow_split]
      exact hno

theorem faithful_iff_words : Faithful (s.notices.filter (·.isAt post)) ↔
    (s.words post).IsChain fun n m => m.1 = false → m.2.id = n.2.id := by
  rw [words, List.isChain_map]
  rfl

/-- Whether the calls at a post stay faithful is decided where somebody leaves it. -/
theorem faithful_obey_iff (hs : s.Tending) (x : Command) :
    Faithful ((s.obey x).2.notices.filter (·.isAt post)) ↔
      Faithful (s.notices.filter (·.isAt post)) ∧
        (s.deployment.differs (s.obey x).2.deployment post → ∀ n ∈ (s.words post).getLast?,
          (s.deployment.contextAt post).map (·.id) = some n.2.id) := by
  have hchain (ws : List (Bool × LogicalContext)) (h : ∀ w ∈ ws, w.1 = true) :
      ws.Pairwise fun n m => m.1 = false → m.2.id = n.2.id :=
    List.pairwise_of_forall_mem_list fun _ _ w hw hdown => by simp [h w hw] at hdown
  rw [faithful_iff_words, faithful_iff_words, words_obey hs, List.isChain_append]
  refine and_congr_right fun _ => ?_
  by_cases hleaves : s.deployment.differs (s.obey x).2.deployment post
  · obtain ⟨c, hc⟩ := hs.mirrored.coherent.contextAt_eq_some (differs_iff.1 hleaves).1
    obtain ⟨ws, hws, hups⟩ := callsAt_of_differs hleaves hc
    have hcalls : ((false, c) :: ws).IsChain fun n m => m.1 = false → m.2.id = n.2.id :=
      (List.pairwise_cons.2 ⟨fun w hw hdown => by simp [hups w hw] at hdown, hchain ws hups⟩).isChain
    simp [hws, hcalls, hleaves, hc]
  · have hups : ∀ w ∈ callsAt s.deployment (s.obey x).2.deployment post, w.1 = true :=
      fun w hw => up_of_mem_callsAt hleaves hw
    refine iff_of_true ⟨(hchain _ hups).isChain, fun n _ m hm hdown => ?_⟩ (absurd · hleaves)
    simp [hups m (List.mem_of_head? hm)] at hdown

/-- Whatever a server is told, greetings and goodbyes take turns at each post, and the goodbyes name the
contexts that the greetings named exactly if no listener is served under another context when it leaves than
when it came. -/
theorem follow_farewells_iff (config : ServerConfig) (pool : Pool) (commands : List Command)
    (post : Post) :
    let s := new config (.inProcess {}) pool
    let calls := (s.follow commands).notices.filter (·.isAt post)
    (∃ present, TakeTurns calls present) ∧ (Faithful calls ↔
      ∀ xs a ds b, xs ++ a :: ds ++ [b] <+: commands → (s.follow xs).Stays post a ds →
        let first := (s.follow (xs ++ [a])).deployment
        let last := (s.follow (xs ++ a :: ds)).deployment
        last.differs (s.follow (xs ++ a :: ds ++ [b])).deployment post →
          (last.contextAt post).map (·.id) = (first.contextAt post).map (·.id)) := by
  intro s
  have hs : s.Tending := tending_new config pool
  refine ⟨((hs.follow commands).turns post).imp fun _ h => h.1, ?_⟩
  induction commands using List.reverseRecOn with
  | nil => exact iff_of_true .nil fun xs a ds b hcommands => by simp at hcommands
  | append_singleton cs x ih =>
    have ht := hs.follow cs
    rw [follow_concat, faithful_obey_iff ht, ih]
    constructor
    · rintro ⟨hall, hlast⟩ xs a ds b hcommands hstays
      rcases List.prefix_concat_iff.1 hcommands with heq | hcommands
      · obtain ⟨rfl, hb⟩ := List.append_inj' heq rfl
        cases hb
        obtain ⟨_, c, hc, hword⟩ := hstays.getLast?_words (hs.follow xs)
        rw [← follow_concat] at hc
        rw [← follow_split] at hword
        intro first last hleaves
        have hmet := hlast (follow_concat s _ _ ▸ hleaves) _ hword
        exact hmet.trans (congrArg (Option.map _) hc).symm
      · exact hall xs a ds b hcommands hstays
    · intro hall
      refine ⟨fun xs a ds b hcommands => hall xs a ds b (hcommands.trans (List.prefix_append cs [x])),
        fun hleaves n hn => ?_⟩
      have hnobody : ¬ s.deployment.Attends post := fun ⟨_, h, _⟩ => nomatch h
      obtain ⟨xs, a, ds, rfl, hstays⟩ := exists_stays hs hnobody (differs_iff.1 hleaves).1
      obtain ⟨_, c, hc, hword⟩ := hstays.getLast?_words (hs.follow xs)
      rw [← follow_concat] at hc
      rw [← follow_split] at hword
      obtain rfl := Option.some.inj (hword.symm.trans hn)
      have hsame := hall xs a ds x List.prefix_rfl hstays (follow_concat s _ _ ▸ hleaves)
      exact hsame.trans (congrArg (Option.map _) hc)

/-- A listener greeted under the first of two contexts in its mount stays when the other one becomes the
first, and is dismissed under that one. -/
theorem dismissed_under_another :
    let a : LogicalContext := ⟨"a", ⟨"/m"⟩, 1, 2, none, .standard, ∅, {}⟩
    let b : LogicalContext := ⟨"b", ⟨"/m"⟩, 0, 3, none, .standard, ∅, {}⟩
    let t := (new {} (.inProcess {}) {}).follow [.start,
      .submit ⟨"add", [.addContext a, .addContext b, .addElement (greeter 1 ["a", "b"])]⟩,
      .submit ⟨"rank", [.updateRank "b" 2]⟩, .submit ⟨"remove", [.removeElement 1]⟩]
    t.notices.map (fun n => (n.up, n.path.text, n.view.context.id)) =
        [(true, "/m", "a"), (false, "/m", "b")] ∧
      ¬ Faithful (t.notices.filter (·.isAt (1, ⟨"/m"⟩))) := by
  decide +kernel

end Server

end ServletContainer
