import ServletContainer.Proofs.Engine.Lookups
import ServletContainer.Proofs.Server.Rollback
import ServletContainer.Proofs.Server.Submission
import ServletContainer.Proofs.Whiteboard.Foreign

/-! Instances on a server. Whoever registers an element, in whatever contexts and however often, all its copies
are of one source, so that its look-ups, by the engine and by requests, are one sequence of look-ups of that
source (`Host.Agrees.looksFor_acts`). A class or a singleton supplier therefore makes one instance for all of
them (`Host.afterAll_instantiates`). -/
namespace ServletContainer

open Pool

def Element.Agrees (e e' : Element) : Prop := e'.id = e.id → e'.details = e.details

theorem Element.source_of_lookup {e e' : Element} {s s' : AnySource} (h : e.Agrees e')
    (hs : e.details.source? = some s) (ha : e'.lookup? = some (.find e.id s')) : s' = s := by
  obtain ⟨found, hfound, heq⟩ := Option.map_eq_some_iff.1 ha
  obtain ⟨hid, rfl⟩ := Act.find.inj heq
  rw [h hid, hs] at hfound
  exact (Option.some.inj hfound).symm

theorem Server.submitActs_congr {s t : Server} (hdeployment : s.deployment = t.deployment)
    (hengine : s.engine = t.engine) (hpool : s.pool = t.pool) (b : Batch) :
    s.submitActs b = t.submitActs b := by
  simp only [submitActs, effectActs, hdeployment, hengine, hpool]

namespace Host

/-- What happens to a server and to those who register on it. -/
inductive Deed where
  | start
  | stop
  | ask (r : Request)
  | serve (fs : Files) (q : Incoming)
  | register (name : String) (c : Collaborator)
  /-- Elements built, and all that befalls the engine. -/
  | elsewhere (engine : Engine) (counters : Counters) (nextService : Nat)

def after (x : Host) : Deed → Host
  | .start => { x with server := x.server.start.2 }
  | .stop => { x with server := x.server.stop.2 }
  | .ask r => (x.perform r).2
  | .serve fs q => { x with server := (x.server.dispatch fs q).2.2 }
  | .register name c => { x with server := { x.server with pool := x.server.pool.register name c } }
  | .elsewhere engine counters nextService =>
    { x with server := { x.server with engine, counters, nextService } }

def afterAll (x : Host) (deeds : List Deed) : Host := deeds.foldl after x

/-- The element is brought in: it is to be added, or registered with the whiteboard. -/
def Offers (x : Host) (e : Element) : Deed → Prop
  | .ask (.handle event) => ∃ selector, event = .registered e selector
  | .ask r => ∃ b, x.batch r = some b ∧ .addElement e ∈ b.changes
  | _ => False

/-- What happens to the pool: the look-ups that the engine makes for a batch, those that a request makes, and
the registration of a class. -/
def acts (x : Host) : Deed → List Act
  | .start => (x.server.submission .start).elim [] fun sb => sb.1.submitActs sb.2
  | .stop => (x.server.submission .stop).elim [] fun sb => sb.1.submitActs sb.2
  | .ask r => (x.batch r).elim [] x.server.submitActs
  | .serve fs q => Dispatch.requestActs (x.server.surroundings fs) x.server.table q x.server.pool
  | .register name c => [.register name c]
  | .elsewhere .. => []

def allActs (x : Host) : List Deed → List Act
  | [] => []
  | deed :: deeds => x.acts deed ++ (x.after deed).allActs deeds

variable {x : Host} {e e' : Element} {s : AnySource} {deed : Deed}

section Pools

theorem pool_comes {s t : Server} {o : Option (Server × Batch)} (h : s.Comes o t) :
    t.pool = s.pool.play (o.elim [] fun sb => sb.1.submitActs sb.2) := by
  cases o with
  | none => exact h.pool
  | some sb =>
    rw [h.2.pool, Server.pool_submit, h.1.pool]
    rfl

theorem pool_perform (x : Host) (r : Request) :
    (x.perform r).2.server.pool = x.server.pool.play ((x.batch r).elim [] x.server.submitActs) := by
  have hsame {s : Server} (b : Batch) (hs : x.server.Consumes s) (hpool : s.pool = x.server.pool) :
      (s.submit b).2.pool = x.server.pool.play (x.server.submitActs b) := by
    have hengine : s.engine = x.server.engine := by rw [hs.eq]
    rw [Server.pool_submit, hpool, Server.submitActs_congr hs.deployment hengine hpool]
  have hhandled := x.handled_perform r
  generalize x.perform r = result at hhandled
  cases hhandled with
  | idle y h _ hpool =>
    rw [h]
    exact hpool
  | refused e s h _ _ hpool =>
    rw [h]
    exact hpool
  | committed b s report y h hs hok hpool =>
    rw [h]
    exact (congrArg (·.2.pool) hok).symm.trans (hsame b hs hpool)
  | rejected b s t e h hs herr hpool =>
    rw [h]
    exact (congrArg (·.2.pool) herr).symm.trans (hsame b hs hpool)

theorem pool_after (x : Host) (deed : Deed) :
    (x.after deed).server.pool = x.server.pool.play (x.acts deed) := by
  cases deed with
  | start => exact pool_comes x.server.comes_start
  | stop => exact pool_comes x.server.comes_stop
  | ask r => exact x.pool_perform r
  | serve fs q => exact Dispatch.pool_execute (x.server.surroundings fs) x.server.table q x.server.pool
  | register name c => rfl
  | elsewhere => rfl

theorem pool_afterAll (x : Host) (deeds : List Deed) :
    (x.afterAll deeds).server.pool = x.server.pool.play (x.allActs deeds) := by
  induction deeds generalizing x with
  | nil => rfl
  | cons deed deeds ih =>
    rw [allActs, play_append, ← pool_after]
    exact ih (x.after deed)

end Pools

section Copies

/-- All elements that the server and the whiteboard know are copies of this one, if they have its number. -/
structure Agrees (x : Host) (e : Element) : Prop where
  deployed : ∀ id e', x.server.deployment.placed id = some e' → e.Agrees e'
  tracked : ∀ id t, x.whiteboard.tracked.find? id = some t → e.Agrees t.element

theorem agrees_new (config : ServerConfig) (engine : Engine) (pool : Pool) (e : Element) :
    Agrees { server := .new config engine pool } e where
  deployed _ _ h := by cases h
  tracked _ _ h := by cases h

theorem exists_of_tracked_perform {r : Request} {id : ElementId} {t : Tracked}
    (ht : (x.perform r).2.whiteboard.tracked.find? id = some t) :
    (∃ u, x.whiteboard.tracked.find? id = some u ∧ u.element = t.element) ∨
      ∃ selector, r = .handle (.registered t.element selector) := by
  cases r with
  | handle event =>
    have hrespond (ht : (x.whiteboard.respond x.server.deployment event).2.tracked.find? id = some t) :
        (∃ u, x.whiteboard.tracked.find? id = some u ∧ u.element = t.element) ∨
          ∃ selector, Request.handle event = .handle (.registered t.element selector) := by
      obtain hu | ⟨_, selector, rfl⟩ := Whiteboard.exists_of_tracked_respond ht
      · exact .inl hu
      · exact .inr ⟨selector, rfl⟩
    simp only [perform, Whiteboard.handle] at ht
    split at ht
    · exact hrespond ht
    · split at ht
      · exact hrespond ht
      · exact .inl ⟨t, ht, rfl⟩
  | _ => exact .inl ⟨t, ht, rfl⟩

theorem Agrees.of_add (h : x.Agrees e) {r : Request} {b : Batch} (hoffers : ∀ e', x.Offers e' (.ask r) → e.Agrees e')
    (hb : x.batch r = some b) : ∀ e', .addElement e' ∈ b.changes → e.Agrees e' := by
  intro e' he'
  cases r with
  | handle event =>
    simp only [batch] at hb
    split at hb
    · cases hb
    · cases hb
      obtain ⟨id, t, ts, ht, _, rfl⟩ | ⟨f, selector, ts, rfl, rfl⟩ := Whiteboard.exists_of_add_respond he'
      · exact h.tracked id t ht
      · exact hoffers f ⟨selector, rfl⟩
  | _ => exact hoffers e' ⟨b, hb, he'⟩

theorem Agrees.of_commits (h : x.Agrees e) {cs : List Change} {d : Deployment}
    (hcommits : x.server.deployment.Commits cs d) (hcs : ∀ e', .addElement e' ∈ cs → e.Agrees e') :
    ∀ id e', d.placed id = some e' → e.Agrees e' :=
  hcommits.traces.forall_placed (fun _ _ hagrees => hagrees) hcs h.deployed

theorem deployment_perform (x : Host) (r : Request) :
    (x.perform r).2.server.deployment = x.server.deployment ∨ ∃ b, x.batch r = some b ∧
      x.server.deployment.Commits b.changes (x.perform r).2.server.deployment := by
  have hhandled := x.handled_perform r
  generalize x.perform r = result at hhandled
  cases hhandled with
  | idle y _ hs => exact .inl hs.deployment
  | refused e s _ _ hs => exact .inl hs.deployment
  | committed b s report y h hs hok => exact .inr ⟨b, h, hs.deployment ▸ Server.submit_ok hok⟩
  | rejected b s t e _ hs herr => exact .inl ((Server.submit_error herr).trans hs.deployment)

theorem Agrees.after (h : x.Agrees e) (hoffers : ∀ e', x.Offers e' deed → e.Agrees e') :
    (x.after deed).Agrees e := by
  have hkept {d : Deployment} (hd : d = x.server.deployment) :
      ∀ id e', d.placed id = some e' → e.Agrees e' := by
    rw [hd]
    exact h.deployed
  cases deed with
  | start =>
    refine ⟨?_, h.tracked⟩
    obtain heq | ⟨c, hcommits⟩ := x.server.deployment_start
    · exact hkept heq
    · exact h.of_commits hcommits (by simp)
  | stop =>
    refine ⟨?_, h.tracked⟩
    obtain heq | hcommits := x.server.deployment_stop
    · exact hkept heq
    · exact h.of_commits hcommits fun e' he' => absurd he' (Server.not_adds_shutdown _ e')
  | ask r =>
    constructor
    · obtain heq | ⟨b, hb, hcommits⟩ := x.deployment_perform r
      · exact hkept heq
      · exact h.of_commits hcommits (h.of_add hoffers hb)
    · intro id t ht
      obtain ⟨u, hu, heq⟩ | ⟨selector, rfl⟩ := exists_of_tracked_perform ht
      · rw [← heq]
        exact h.tracked id u hu
      · exact hoffers t.element ⟨selector, rfl⟩
  | serve | register | elsewhere => exact ⟨h.deployed, h.tracked⟩

theorem agrees_of_mem_elementList {d : Deployment} (hd : ∀ id e', d.placed id = some e' → e.Agrees e')
    (he' : e' ∈ d.elementList) : e.Agrees e' := by
  obtain ⟨t, ht, rfl⟩ := List.mem_map.1 he'
  obtain ⟨id, hid⟩ := OrdMap.mem_values_iff.1 ht
  have hplaced : d.placed id = some t.element.original := by rw [Deployment.placed, hid, Option.map_some]
  have hagrees : e.Agrees t.element.original := hd id _ hplaced
  exact hagrees

theorem Agrees.looksFor_submitActs (h : x.Agrees e) (hs : e.details.source? = some s) {t : Server}
    {b : Batch} (ht : t.deployment = x.server.deployment)
    (hadds : ∀ e', .addElement e' ∈ b.changes → e.Agrees e') : LooksFor e.id s (t.submitActs b) := by
  intro s' hs'
  obtain ⟨d, hcommits, e', he', ha⟩ := Server.mem_submitActs hs'
  rw [ht] at hcommits
  exact Element.source_of_lookup (agrees_of_mem_elementList (h.of_commits hcommits hadds) he') hs ha

theorem Agrees.looksFor_acts (h : x.Agrees e) (hs : e.details.source? = some s)
    (hoffers : ∀ e', x.Offers e' deed → e.Agrees e') : LooksFor e.id s (x.acts deed) := by
  cases deed with
  | start =>
    have hcomes := x.server.comes_start
    simp only [acts]
    cases hsubmission : x.server.submission .start with
    | none => exact looksFor_nil
    | some sb =>
      rw [hsubmission] at hcomes
      obtain ⟨c, hchanges⟩ := Server.changes_start hsubmission
      exact h.looksFor_submitActs hs hcomes.1.deployment fun e' he' => by simp [hchanges] at he'
  | stop =>
    simp only [acts, Server.submission]
    split
    · exact h.looksFor_submitActs hs rfl fun e' he' => absurd he' (Server.not_adds_shutdown _ e')
    · exact looksFor_nil
  | ask r =>
    simp only [acts]
    cases hb : x.batch r with
    | none => exact looksFor_nil
    | some b => exact h.looksFor_submitActs hs rfl (h.of_add hoffers hb)
  | serve fs q =>
    intro s' hs'
    obtain ⟨e', he', ha⟩ := Dispatch.mem_requestActs (d := x.server.deployment) hs'
    exact Element.source_of_lookup (agrees_of_mem_elementList h.deployed he') hs ha
  | register name c => exact fun s' hs' => by simp [acts] at hs'
  | elsewhere => exact looksFor_nil

/-- If whatever is brought in under the element's number is a copy of it, all its look-ups are of one
source. -/
theorem Agrees.looksFor_allActs {deeds : List Deed} (h : x.Agrees e) (hs : e.details.source? = some s)
    (hoffers : ∀ before deed, before ++ [deed] <+: deeds →
      ∀ e', (x.afterAll before).Offers e' deed → e.Agrees e') : LooksFor e.id s (x.allActs deeds) := by
  induction deeds generalizing x with
  | nil => exact looksFor_nil
  | cons deed deeds ih =>
    have hfirst : ∀ e', x.Offers e' deed → e.Agrees e' :=
      hoffers [] deed (List.prefix_append [deed] deeds)
    have hrest : LooksFor e.id s ((x.after deed).allActs deeds) :=
      ih (h.after hfirst) fun before next hstage =>
        hoffers (deed :: before) next ((List.prefix_cons_inj deed).2 hstage)
    exact fun s' hs' => (List.mem_append.1 hs').elim (h.looksFor_acts hs hfirst s') (hrest s')

end Copies

/-- Whatever happens to a server and to those who register on it, the look-ups of an element and its copies are
look-ups of one source, one after the other. A class or a singleton supplier is asked in each of them until it
gives an instance; failures are not kept, this instance is, and every later look-up gets it without anybody
being called or anything being changed. A supplier that is to be called for every look-up is called exactly as
often. -/
theorem afterAll_instantiates (x : Host) (deeds : List Deed) (e : Element) (s : AnySource)
    (hs : e.details.source? = some s) (hx : x.Agrees e)
    (hoffers : ∀ before deed, before ++ [deed] <+: deeds →
      ∀ e', (x.afterAll before).Offers e' deed → e.Agrees e') :
    let p := x.server.pool
    let q := (x.afterAll deeds).server.pool
    let looks := p.lookups e.id (x.allActs deeds)
    q = p.play (x.allActs deeds) ∧ (∀ l ∈ looks, l.id = e.id ∧ l.source = s) ∧
      (s.isShared →
        (∀ i, (p.memo e.id s).shared = some i → ∀ l ∈ looks, l.Recalls i) ∧
        ((p.memo e.id s).shared = none → ∃ failed made, looks = failed ++ made ∧
          (∀ l ∈ failed, l.Asks ∧ ∃ err, l.result = .error err) ∧
          ∀ first rest, made = first :: rest → ∃ i, first.Fixes i ∧ ∀ l ∈ rest, l.Recalls i)) ∧
      (s.isPerLookup → (∀ l ∈ looks, l.Asks) ∧
        (q.memo e.id s).calls = (p.memo e.id s).calls + looks.length) := by
  intro p q looks
  have hlooks := hx.looksFor_allActs hs hoffers
  have hpool : q = p.play (x.allActs deeds) := x.pool_afterAll deeds
  refine ⟨hpool, source_of_mem_lookups hlooks p, fun hshared => ⟨?_, ?_⟩, fun hper => ⟨?_, ?_⟩⟩
  · exact fun i => recalls_of_shared hshared hlooks p
  · exact lookups_of_shared hshared hlooks p
  · exact asks_of_not_shared (AnySource.not_isShared hper) hlooks p
  · rw [hpool]
    exact calls_play hper hlooks p

/-- A filter of a class that is not registered at first: the look-up for the first request fails, and those for
the next two, and for one after the filter has been given other contexts, get one instance. -/
theorem afterAll_instantiates_class :
    let guard : Element :=
      { Element.catchAll 1 with name := "guard", details := .filter (.classRef "guard") [] false }
    let x : Host := { server := .new {} .idle {} }
    let c : LogicalContext := { id := "c", path := ⟨"/c"⟩, order := 0 }
    let get : Deed := .serve ⟨"", ∅⟩ { uri := ⟨"/c/any", none⟩ }
    let deeds : List Deed := [.start, .ask (.submit ⟨"open", [.addContext c]⟩),
      .ask (.handle (.registered guard .all)), get, .register "guard" (.filter .accessLog), get, get,
      .ask (.submit ⟨"narrow", [.retarget 1 ["c"]]⟩), get]
    let p := x.server.pool
    let looks := p.lookups 1 (x.allActs deeds)
    let made : Instance Collaborator := ⟨.filter .accessLog, 1⟩
    looks.map (·.result) =
        [.error (.instantiation "guard" "class is not registered"), .ok made, .ok made, .ok made] ∧
      (x.afterAll deeds).server.pool = p.play (x.allActs deeds) ∧
      (∀ l ∈ looks, l.source = .filter (.classRef "guard")) ∧
      ∃ failed made, looks = failed ++ made ∧
        (∀ l ∈ failed, l.Asks ∧ ∃ err, l.result = .error err) ∧
        ∀ first rest, made = first :: rest → ∃ i, first.Fixes i ∧ ∀ l ∈ rest, l.Recalls i := by
  intro guard x c get deeds p looks made
  have hresults : looks.map (·.result) =
      [.error (.instantiation "guard" "class is not registered"), .ok made, .ok made, .ok made] := by
    decide +kernel
  have hoffers (before : List Deed) (deed : Deed) (hstage : before ++ [deed] <+: deeds) (e' : Element)
      (he' : (x.afterAll before).Offers e' deed) : guard.Agrees e' := by
    have hmem : deed ∈ deeds := hstage.subset (by simp)
    simp only [deeds, List.mem_cons, List.not_mem_nil, or_false] at hmem
    rcases hmem with rfl | rfl | rfl | rfl | rfl | rfl | rfl | rfl | rfl
    · cases he'
    · obtain ⟨b, hb, he'⟩ := he'
      cases hb
      simp at he'
    · obtain ⟨selector, heq⟩ := he'
      cases heq
      exact fun _ => rfl
    · cases he'
    · cases he'
    · cases he'
    · cases he'
    · obtain ⟨b, hb, he'⟩ := he'
      cases hb
      simp at he'
    · cases he'
  obtain ⟨hpool, hsource, hshared, _⟩ := afterAll_instantiates x deeds guard (.filter (.classRef "guard")) rfl
    (agrees_new {} .idle {} guard) hoffers
  exact ⟨hresults, hpool, fun l hl => (hsource l hl).2, (hshared rfl).2 rfl⟩

end Host

end ServletContainer
