import ServletContainer.Proofs.Alias.Registration
import ServletContainer.Proofs.Server.Accepting
import ServletContainer.Proofs.Whiteboard.Foreign
import ServletContainer.Proofs.Whiteboard.Pending

/-! Giving aliases up again. The aliases and the server are two books on the same elements. An alias can be
given up, and taken again, exactly while its element is deployed (`Numbered.renews_iff`), and that comes to
an end only in two ways, which are `Strands`: the server is stopped, or an event ends the registration of
the element (`renews_run_iff`). -/
namespace ServletContainer

theorem Whiteboard.toBool_handle {w : Whiteboard} {s : Server} (hs : s.Accepts) (event : Event) :
    (w.handle s event).1.toBool ↔ ∃ m, s.deployment.Becomes (w.respond s.deployment event).1 m := by
  unfold handle
  split
  rename_i changes next heq
  rw [heq]
  split
  · rename_i hempty
    rw [List.isEmpty_iff] at hempty
    subst hempty
    exact ⟨fun _ => ⟨_, Deployment.becomes_nil.2 rfl⟩, fun _ => rfl⟩
  · rw [← hs.toBool_submit_iff (b := ⟨event.label, changes⟩)]
    split <;> rename_i hsubmit <;> rw [hsubmit] <;> rfl

namespace Host

open Deployment

/-- What happens to a server to which a whiteboard and aliases write. Meanwhile requests are served,
elements and contexts built and classes registered. -/
inductive Step where
  | start
  | stop
  | event (event : Event)
  | call (c : Aliases.Call)
  | meanwhile (pool : Pool) (made : Counters) (nextService : Nat)

def step (x : Host) : Step → Host
  | .start => { x with server := x.server.start.2 }
  | .stop => { x with server := x.server.stop.2 }
  | .event event =>
    let (_, whiteboard, server) := x.whiteboard.handle x.server event
    { x with server, whiteboard }
  | .call c =>
    let (aliases, server) := x.aliases.call x.server c
    { x with server, aliases }
  | .meanwhile pool made nextService =>
    let n := x.server.counters
    let counters := ⟨n.element + made.element, n.order + made.order⟩
    { x with server := { x.server with pool, counters, nextService } }

def run (x : Host) (steps : List Step) : Host := steps.foldl step x

variable {x : Host} {s t : Server} {a : String} {y : Alias} {event : Event} {steps : List Step}

theorem run_concat (x : Host) (steps : List Step) (b : Step) :
    x.run (steps ++ [b]) = (x.run steps).step b := List.foldl_concat ..

theorem server_event (x : Host) (event : Event) :
    (x.step (.event event)).server = (x.whiteboard.handle x.server event).2.2 := rfl

theorem whiteboard_event (x : Host) (event : Event) :
    (x.step (.event event)).whiteboard = (x.whiteboard.handle x.server event).2.1 := rfl

def Built (x : Host) : Step → Prop
  | .event (.registered e _) => e.id < x.server.counters.element
  | _ => True

/-- The step takes the element of an alias from the server and leaves the alias as it is. -/
def Strands (x : Host) : Step → Prop
  | .stop => x.server.started ∧ ∃ a y, x.aliases.entries.find? a = some y
  | .event (.unregistered id) =>
    id ∉ x.whiteboard.pending ∧ ∃ a y, x.aliases.entries.find? a = some y ∧ y.element = id
  | _ => False

/-- The owner of the alias can give it up, and then anybody can take it. -/
def Renews (x : Host) (a : String) (y : Alias) : Prop :=
  let (r, aliases, s) := x.aliases.unregister x.server y.owner a
  r.toBool ∧ ∀ owner target context, (∀ c, context = some c → (s.deployment.contexts.find? c).isSome) →
    (aliases.register s owner a target context).1.toBool

section Numbered

/-- All elements have numbers that were given out, and no two aliases have the same element. -/
structure Numbered (x : Host) : Prop where
  accepts : x.server.Accepts
  keyed : x.whiteboard.Keyed
  deployed : ∀ id, x.server.deployment.placed id ≠ none → id < x.server.counters.element
  tracked : ∀ id, x.whiteboard.tracked.contains id → id < x.server.counters.element
  valid : ∀ a y, x.aliases.entries.find? a = some y → Aliases.isValid a
  aliased : ∀ a y, x.aliases.entries.find? a = some y → y.element < x.server.counters.element
  distinct : ∀ a b y z, x.aliases.entries.find? a = some y → x.aliases.entries.find? b = some z →
    y.element = z.element → a = b

theorem numbered_new {engine : Engine} (h : engine.AcceptsAll) (config : ServerConfig) (pool : Pool) :
    Numbered { server := .new config engine pool } where
  accepts := Server.accepts_new h pool
  keyed _ _ h := by cases h
  deployed _ h := absurd rfl h
  tracked := nofun
  valid := nofun
  aliased := nofun
  distinct := nofun

theorem Numbered.of_server (h : x.Numbered) (haccepts : t.Accepts)
    (hplaced : ∀ id, t.deployment.placed id ≠ none → x.server.deployment.placed id ≠ none)
    (hcount : x.server.counters.element ≤ t.counters.element) :
    Numbered { x with server := t } where
  accepts := haccepts
  keyed := h.keyed
  deployed id hid := (h.deployed id (hplaced id hid)).trans_le hcount
  tracked id hid := (h.tracked id hid).trans_le hcount
  valid := h.valid
  aliased a y hy := (h.aliased a y hy).trans_le hcount
  distinct := h.distinct

theorem Numbered.start (h : x.Numbered) : (x.step .start).Numbered :=
  h.of_server h.accepts.start (fun id hid => x.server.placed_start_eq id ▸ hid)
    x.server.element_start.ge

theorem Numbered.stop (h : x.Numbered) : (x.step .stop).Numbered := by
  refine h.of_server h.accepts.stop (fun id hid => ?_) (by rw [Server.counters_stop])
  by_cases hstarted : x.server.started
  · exact absurd (h.accepts.placed_stop hstarted id) hid
  · rwa [Server.stop_of_not_started hstarted] at hid

theorem Numbered.handled (h : x.Numbered) (hbuilt : x.Built (.event event)) :
    (x.step (.event event)).Numbered := by
  obtain ⟨haccepts, hcount⟩ : (x.whiteboard.handle x.server event).2.2.Accepts ∧
      (x.whiteboard.handle x.server event).2.2.counters = x.server.counters := by
    rcases x.whiteboard.server_handle x.server event with heq | ⟨b, heq⟩ <;> rw [heq]
    · exact ⟨h.accepts, rfl⟩
    · exact ⟨h.accepts.submit b, x.server.counters_submit b⟩
  have hknown {id : ElementId} (hid : x.whiteboard.tracked.contains id ∨ event.Registers id) :
      id < x.server.counters.element := by
    rcases hid with hid | hid
    · exact h.tracked id hid
    · cases event with
      | registered e selector =>
        obtain rfl : e.id = id := hid
        exact hbuilt
      | _ => cases hid
  refine ⟨haccepts, h.keyed.handle, fun id hid => ?_, fun id hid => ?_, h.valid, fun a y hy => ?_,
    h.distinct⟩
  all_goals rw [server_event, hcount]
  · rw [server_event] at hid
    obtain ⟨_, heq, _⟩ | ⟨_, _, htraces, _⟩ := x.whiteboard.handle_cases x.server event
    · exact h.deployed id (heq ▸ hid)
    · rcases htraces.placed_or_adds hid with hid | hadds
      · exact h.deployed id hid
      · exact hknown (h.keyed.adds_respond hadds)
  · rw [whiteboard_event] at hid
    obtain ⟨heq, _⟩ | ⟨heq, _⟩ := x.whiteboard.handle_cases x.server event <;> rw [heq] at hid
    · exact h.tracked id hid
    · exact hknown (Whiteboard.contains_respond hid)
  · exact h.aliased a y hy

theorem Numbered.added {owner : Module} {e : Element} {label : String} {report : Report}
    (h : x.Numbered) (hvalid : Aliases.isValid a) (hid : e.id = x.server.counters.element)
    (hs : x.server.Consumes s) (hcount : e.id < s.counters.element)
    (hsubmit : s.submit ⟨label, [.addElement e]⟩ = (.ok report, t)) :
    Numbered { x with server := t, aliases := ⟨x.aliases.entries.insert a ⟨owner, e.id⟩⟩ } := by
  have hcommits := hs.deployment ▸ Server.submit_ok hsubmit
  have haccepts := (h.accepts.consumes hs).submit ⟨label, [.addElement e]⟩
  have hcounters := s.counters_submit ⟨label, [.addElement e]⟩
  rw [hsubmit] at haccepts hcounters
  have hfind (b : String) : (x.aliases.entries.insert a ⟨owner, e.id⟩).find? b =
      if b = a then some ⟨owner, e.id⟩ else x.aliases.entries.find? b := OrdMap.find?_insert_eq ..
  have hlt : x.server.counters.element < t.counters.element := by
    rw [hcounters, ← hid]
    exact hcount
  have hfresh : e.id < t.counters.element := by
    rw [hid]
    exact hlt
  have hne {b : String} {z : Alias} (hb : x.aliases.entries.find? b = some z) : z.element ≠ e.id :=
    hid ▸ (h.aliased b z hb).ne
  refine ⟨haccepts, h.keyed, fun id hid' => ?_, fun id hid' => (h.tracked id hid').trans hlt,
    fun b z hb => ?_, fun b z hb => ?_, fun b c z w hb hc hzw => ?_⟩
  · rw [hcommits.placed_addElement.2] at hid'
    split at hid'
    · rename_i heq
      exact heq ▸ hfresh
    · exact (h.deployed id hid').trans hlt
  · rw [hfind] at hb
    split at hb
    · rename_i hba
      exact hba ▸ hvalid
    · exact h.valid b z hb
  · rw [hfind] at hb
    split at hb
    · cases hb
      exact hfresh
    · exact (h.aliased b z hb).trans hlt
  · rw [hfind] at hb hc
    split at hb <;> split at hc
    · rename_i hba hca
      rw [hba, hca]
    · cases hb
      exact absurd hzw.symm (hne hc)
    · cases hc
      exact absurd hzw (hne hb)
    · exact h.distinct b c z w hb hc hzw

theorem Numbered.dropped {ids : List ElementId} {left : Aliases} {label : String} {report : Report}
    (h : x.Numbered) (hids : x.aliases.Drops ids left)
    (hsubmit : x.server.submit ⟨label, ids.map .removeElement⟩ = (.ok report, t)) :
    Numbered { x with server := t, aliases := left } := by
  have hcommits := Server.submit_ok hsubmit
  have haccepts := h.accepts.submit ⟨label, ids.map .removeElement⟩
  have hcounters := x.server.counters_submit ⟨label, ids.map .removeElement⟩
  rw [hsubmit] at haccepts hcounters
  have hserver : Numbered { x with server := t } :=
    h.of_server haccepts (fun id hid => ?_) (by rw [hcounters])
  · exact { hserver with
      valid := fun b z hb => h.valid b z (hids.kept b z hb)
      aliased := fun b z hb => hserver.aliased b z (hids.kept b z hb)
      distinct := fun b c z w hb hc => h.distinct b c z w (hids.kept b z hb) (hids.kept c w hc) }
  · rw [hcommits.placed_removeElements] at hid
    split at hid
    · exact absurd rfl hid
    · exact hid

theorem Numbered.called {r : Aliases × Server} (h : x.Numbered) (hr : x.aliases.Called x.server r) :
    Numbered { x with server := r.2, aliases := r.1 } := by
  cases hr with
  | refused t ht =>
    exact h.of_server (h.accepts.consumes ht) (fun id hid => ht.deployment ▸ hid) ht.counters.1
  | added a owner e u t label report hvalid hfree he hid hu hcount hsubmit =>
    exact h.added hvalid hid hu hcount hsubmit
  | dropped ids left t label report hids hsubmit => exact h.dropped hids hsubmit

theorem Numbered.step (h : x.Numbered) (b : Step) (hbuilt : x.Built b) : (x.step b).Numbered := by
  cases b with
  | start => exact h.start
  | stop => exact h.stop
  | event event => exact h.handled hbuilt
  | call c => exact h.called (Aliases.called_call _ _ c)
  | meanwhile pool made nextService =>
    exact h.of_server (h.accepts.of_eq rfl rfl) (fun _ hid => hid) (Nat.le_add_right _ _)

end Numbered

section Renewal

theorem Numbered.register_ok {owner : Module} {target : AliasTarget} {context : Option ContextId}
    (h : x.Numbered) (hvalid : Aliases.isValid a) (hfree : x.aliases.entries.find? a = none)
    (hcontext : ∀ c, context = some c → (x.server.deployment.contexts.find? c).isSome) :
    (x.aliases.register x.server owner a target context).1.toBool := by
  let e := Aliases.element owner a target context x.server.nextService x.server.counters.element
  have hnew : (Aliases.counted x.server).deployment.placed e.id = none := by
    by_contra hplaced
    exact absurd (h.deployed _ hplaced) (Nat.lt_irrefl _)
  have htargets : ∀ c ∈ e.targets,
      ∃ l, (Aliases.counted x.server).deployment.contexts.find? c = some l := fun c hc =>
    Option.isSome_iff_exists.1 (hcontext c (by simpa [e, Aliases.element] using hc))
  obtain ⟨m, hm⟩ := exists_addElement hnew htargets
  rw [Aliases.toBool_register hvalid hfree,
    (h.accepts.consumes (Aliases.consumes_counted _)).toBool_submit_iff]
  exact ⟨m, becomes_cons.2 ⟨m, hm, becomes_nil.2 rfl⟩⟩

theorem Numbered.renews_iff (h : x.Numbered) (ha : x.aliases.entries.find? a = some y) :
    x.Renews a y ↔ x.server.deployment.elements.contains y.element := by
  have hfound : (x.aliases.entries.find? a).filter (·.owner = y.owner) = some y := by simp [ha]
  have hcommitted : (x.server.submit ⟨"unregister alias " ++ a, [.removeElement y.element]⟩).1.toBool ↔
      x.server.deployment.elements.contains y.element := by
    rw [h.accepts.toBool_submit_iff]
    refine ⟨fun ⟨m, hm⟩ => ?_, exists_becomes_removeElement⟩
    obtain ⟨_, hremove, _⟩ := becomes_cons.1 hm
    exact Option.isSome_iff_exists.2 (removeElement_ok hremove).1
  have hcalled : x.aliases.Called x.server (x.aliases.unregister x.server y.owner a).2 :=
    Aliases.called_unregister
  have hafter := h.called hcalled
  rw [← hcommitted, Renews, Aliases.unregister, hfound]
  rw [Aliases.unregister, hfound] at hafter
  rcases hsubmit : x.server.submit ⟨"unregister alias " ++ a, [.removeElement y.element]⟩ with
    ⟨e | report, t⟩ <;> simp only [hsubmit] at hafter ⊢
  · simp [Except.toBool]
  · refine iff_of_true ⟨rfl, fun owner target context hcontext => ?_⟩ rfl
    exact hafter.register_ok (h.valid a y ha) (by simp [OrdMap.find?_erase_eq]) hcontext

end Renewal

section Stranding

/-- The element of every alias is deployed, and not by the whiteboard. -/
def Intact (x : Host) : Prop :=
  ∀ a y, x.aliases.entries.find? a = some y →
    x.server.deployment.placed y.element ≠ none ∧ x.whiteboard.placed y.element = none

theorem intact_event (h : x.Numbered) (hx : x.Intact) (hb : ¬ x.Strands (.event event)) :
    (x.step (.event event)).Intact := by
  intro a y hy
  obtain ⟨hdeployed, hheld⟩ := hx a y hy
  have hevent : ¬ (event = .unregistered y.element ∧ y.element ∉ x.whiteboard.pending) := by
    rintro ⟨rfl, hpending⟩
    exact hb ⟨hpending, a, y, hy, rfl⟩
  obtain ⟨hsame, hdeployment, _⟩ | ⟨hnext, ⟨m, hm⟩, htraces, _⟩ :=
    x.whiteboard.handle_cases x.server event
  · rw [server_event, whiteboard_event, hdeployment, hsame]
    exact ⟨hdeployed, hheld⟩
  · obtain ⟨hforeign, hheld⟩ := h.keyed.respond_foreign hdeployed hheld hevent hm
    rw [server_event, whiteboard_event, htraces.placed, Change.foldl_onElement_of_ne hforeign, hnext]
    exact ⟨hdeployed, hheld⟩

theorem intact_called {r : Aliases × Server} (h : x.Numbered) (hx : x.Intact)
    (hr : x.aliases.Called x.server r) : Intact { x with server := r.2, aliases := r.1 } := by
  cases hr with
  | refused t ht =>
    intro a y hy
    exact ht.deployment ▸ hx a y hy
  | added a owner e u t label report hvalid hfree he hid hu hcount hsubmit =>
    have hcommits := hu.deployment ▸ Server.submit_ok hsubmit
    intro b z hb
    rw [OrdMap.find?_insert_eq] at hb
    simp only [hcommits.placed_addElement.2]
    split at hb
    · cases hb
      refine ⟨by simp, Whiteboard.placed_eq_none_iff.2 fun t ht => ?_⟩
      -- the number is new, so that the whiteboard cannot know it
      have hlt := h.tracked e.id (Whiteboard.contains_iff.2 ⟨t, ht⟩)
      exact absurd hid hlt.ne
    · obtain ⟨hdeployed, hheld⟩ := hx b z hb
      refine ⟨?_, hheld⟩
      rw [if_neg (hid ▸ (h.aliased b z hb).ne)]
      exact hdeployed
  | dropped ids left t label report hids hsubmit =>
    have hcommits := Server.submit_ok hsubmit
    intro b z hb
    obtain ⟨hdeployed, hheld⟩ := hx b z (hids.kept b z hb)
    refine ⟨?_, hheld⟩
    simp only [hcommits.placed_removeElements]
    rw [if_neg (hids.not_mem h.distinct hb)]
    exact hdeployed

theorem Intact.step (hx : x.Intact) (h : x.Numbered) (b : Step) (hb : ¬ x.Strands b) :
    (x.step b).Intact := by
  cases b with
  | start =>
    intro a y hy
    obtain ⟨hdeployed, hheld⟩ := hx a y hy
    exact ⟨x.server.placed_start_eq y.element ▸ hdeployed, hheld⟩
  | stop =>
    intro a y hy
    have hstopped : ¬ x.server.started := fun hstarted => hb ⟨hstarted, a, y, hy⟩
    have hsame : x.step .stop = x := by rw [Host.step, Server.stop_of_not_started hstopped]
    exact hsame.symm ▸ hx a y (hsame ▸ hy)
  | event event => exact intact_event h hx hb
  | call c => exact intact_called h hx (Aliases.called_call _ _ c)
  | meanwhile => exact hx

theorem Numbered.exists_of_strands (h : x.Numbered) {b : Step} (hb : x.Strands b) :
    ∃ a y, (x.step b).aliases.entries.find? a = some y ∧
      (x.step b).server.deployment.placed y.element = none := by
  cases b with
  | stop =>
    obtain ⟨hstarted, a, y, hy⟩ := hb
    exact ⟨a, y, hy, h.accepts.placed_stop hstarted y.element⟩
  | event event =>
    cases event with
    | unregistered id =>
      obtain ⟨hpending, a, y, hy, rfl⟩ := hb
      refine ⟨a, y, hy, ?_⟩
      have hremoves : (x.whiteboard.respond x.server.deployment (.unregistered y.element)).1 =
          [.removeElement y.element] := by rw [Whiteboard.changes_unregistered, if_neg hpending]
      rw [server_event]
      obtain ⟨_, hdeployment, hfails⟩ | ⟨_, _, htraces, _⟩ :=
        x.whiteboard.handle_cases x.server (.unregistered y.element)
      · -- only what is not there cannot be removed
        rw [hdeployment]
        by_contra hplaced
        have hok := (Whiteboard.toBool_handle h.accepts (.unregistered y.element)).2 (hremoves ▸
          exists_becomes_removeElement (Deployment.contains_iff.2 hplaced))
        simp [hfails] at hok
      · rw [htraces.placed, hremoves]
        exact if_pos rfl
    | _ => exact hb.elim
  | _ => exact hb.elim

/-- Along a run, all aliases are intact as long as no step strands one. -/
theorem intact_run {engine : Engine} (hengine : engine.AcceptsAll) (config : ServerConfig) (pool : Pool)
    (hbuilt : ∀ as b, as ++ [b] <+: steps → (run { server := .new config engine pool } as).Built b) :
    (∀ as, as <+: steps → (run { server := .new config engine pool } as).Numbered) ∧
      ((∀ as b, as ++ [b] <+: steps → ¬ (run { server := .new config engine pool } as).Strands b) →
        ∀ as, as <+: steps → (run { server := .new config engine pool } as).Intact) := by
  have hnumbered := foldl_prefix_induction (f := step) (P := Numbered)
    (numbered_new hengine config pool) fun as b has h => h.step b (hbuilt as b has)
  refine ⟨hnumbered, fun hstrands => ?_⟩
  refine foldl_prefix_induction (f := step) (P := Intact) nofun fun as b has h => ?_
  exact h.step (hnumbered as ((List.prefix_append as [b]).trans has)) b (hstrands as b has)

/-- On an engine that accepts everything, an alias can be given up and taken again at every stage of a run
exactly while its element is deployed; and it always can, exactly if no alias is ever listed on a started
server that is stopped, and no event ends the registration of its element, unless this waits. -/
theorem renews_run_iff {engine : Engine} (hengine : engine.AcceptsAll) (config : ServerConfig)
    (pool : Pool) (steps : List Step)
    (hbuilt : ∀ as b, as ++ [b] <+: steps → (run { server := .new config engine pool } as).Built b) :
    let stage := run { server := .new config engine pool }
    (∀ as, as <+: steps → ∀ a y, (stage as).aliases.entries.find? a = some y →
      ((stage as).Renews a y ↔ (stage as).server.deployment.elements.contains y.element)) ∧
    ((∀ as, as <+: steps → ∀ a y, (stage as).aliases.entries.find? a = some y →
        (stage as).Renews a y) ↔
      ∀ as b, as ++ [b] <+: steps → ¬ (stage as).Strands b) := by
  intro stage
  obtain ⟨hnumbered, hintact⟩ := intact_run hengine config pool hbuilt
  refine ⟨fun as has a y hy => (hnumbered as has).renews_iff hy, fun h as b has hb => ?_,
    fun h as has a y hy => ?_⟩
  · have hprefix := (List.prefix_append as [b]).trans has
    obtain ⟨a, y, hy, hnone⟩ := (hnumbered as hprefix).exists_of_strands hb
    have hafter := run_concat { server := .new config engine pool } as b
    rw [← hafter] at hy hnone
    have hcontains := ((hnumbered _ has).renews_iff hy).1 (h _ has a y hy)
    exact Deployment.contains_iff.1 hcontains hnone
  · exact ((hnumbered as has).renews_iff hy).2 (Deployment.contains_iff.2 (hintact h as has a y hy).1)

/-- The whiteboard registers a servlet beside an alias, which can be given up as long as nobody takes its
element away. -/
theorem renews_run_iff_beside :
    let steps : List Step := [.start, .meanwhile {} ⟨1, 0⟩ 1, .event (.registered (.catchAll 1) .default),
      .call (.register ⟨1, "app"⟩ "/a" (.resources "www") none)]
    let stage := run { server := .new {} .idle {} }
    Engine.AcceptsAll .idle ∧ (∀ as b, as ++ [b] <+: steps → (stage as).Built b) ∧
      (stage steps).aliases.entries.find? "/a" = some ⟨⟨1, "app"⟩, 2⟩ ∧
      (stage steps).Renews "/a" ⟨⟨1, "app"⟩, 2⟩ := by
  intro steps stage
  have hbuilt : ∀ as b, as ++ [b] <+: steps → (stage as).Built b := by
    rintro as b ⟨rest, h⟩
    obtain _ | ⟨_, _ | ⟨_, _ | ⟨_, _ | ⟨_, as⟩⟩⟩⟩ := as <;> simp [steps] at h
    · rw [h.1]
      exact trivial
    · rw [h.2.1]
      exact trivial
    · obtain ⟨rfl, rfl, rfl, _⟩ := h
      have hcount : 1 < (stage [.start, .meanwhile {} ⟨1, 0⟩ 1]).server.counters.element := by
        decide +kernel
      exact hcount
    · rw [h.2.2.2.1]
      exact trivial
  have hfind : (stage steps).aliases.entries.find? "/a" = some ⟨⟨1, "app"⟩, 2⟩ := by decide +kernel
  have hdeployed : (stage steps).server.deployment.elements.contains 2 := by decide +kernel
  have hrenews := (renews_run_iff Engine.acceptsAll_idle {} {} steps hbuilt).1 steps
    (List.prefix_refl _) _ _ hfind
  refine ⟨Engine.acceptsAll_idle, hbuilt, hfind, ?_⟩
  rw [hrenews]
  exact hdeployed

/-- A server that was stopped and started again lists its alias still, and so does one whose whiteboard was
told to end the registration of the element; the alias can neither be given up nor taken again. -/
theorem alias_stranded :
    let owner : Module := ⟨1, "app"⟩
    let registered : List Step := [.start, .call (.register owner "/a" (.resources "www") none)]
    let stage := run { server := .new {} .idle {} }
    ∀ x ∈ [stage (registered ++ [.stop, .start]), stage (registered ++ [.event (.unregistered 1)])],
      x.server.started ∧ x.aliases.entries.find? "/a" = some ⟨owner, 1⟩ ∧
      (x.aliases.unregister x.server owner "/a").1 = .error (.batch (.validation "unregister alias /a" 0
        "remove element #1" (.unknownElement 1))) ∧
      (x.aliases.register x.server owner "/a" (.resources "www") none).1 =
        .error (.validation (.aliasInUse "/a")) := by
  decide +kernel

end Stranding

end Host

end ServletContainer
