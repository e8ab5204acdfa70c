import ServletContainer.Alias
import ServletContainer.Config.Manager
import ServletContainer.Proofs.Engine.Check
import ServletContainer.Proofs.Server.Run
import ServletContainer.Server.Service
import ServletContainer.Whiteboard

/-! Requests that fail. Whoever registers on a server keeps books of his own; every request comes down
to one batch (`Host.handled_perform`), and if that is not committed, neither the server nor the books
have changed, but for numbers given out and listeners made (`Host.perform_error`). -/
namespace ServletContainer

instance : LE Counters := ⟨fun n m => n.element ≤ m.element ∧ n.order ≤ m.order⟩

namespace Counters

theorem le_refl (n : Counters) : n ≤ n := ⟨n.element.le_refl, n.order.le_refl⟩

theorem le_trans {n m k : Counters} (h : n ≤ m) (h' : m ≤ k) : n ≤ k :=
  ⟨h.1.trans h'.1, h.2.trans h'.2⟩

theorem le_newContext (n : Counters) (id : ContextId) (path : String) :
    n ≤ (n.newContext id path).2 := by
  unfold newContext
  split
  · exact ⟨n.element.le_refl, n.order.le_succ⟩
  · exact n.le_refl

theorem le_build (n : Counters) (b : Builder) : n ≤ (b.build n).2 := by
  unfold Builder.build
  split
  · exact ⟨n.element.le_succ, n.order.le_refl⟩
  · exact n.le_refl

end Counters

namespace Server

variable {s t u : Server} {b : Batch} {e : BatchError}

/-- Nothing happened to the server but that numbers were given out and listeners asked for. -/
structure Consumes (s t : Server) : Prop where
  eq : t = { s with pool := t.pool, counters := t.counters, nextService := t.nextService }
  pool : s.pool.Consults t.pool
  counters : s.counters ≤ t.counters
  nextService : s.nextService ≤ t.nextService

@[refl] theorem Consumes.refl (s : Server) : s.Consumes s :=
  ⟨rfl, .refl _, s.counters.le_refl, s.nextService.le_refl⟩

theorem Consumes.trans (h : s.Consumes t) (h' : t.Consumes u) : s.Consumes u where
  eq := by rw [h'.eq, h.eq]
  pool := h.pool.trans h'.pool
  counters := Counters.le_trans h.counters h'.counters
  nextService := h.nextService.trans h'.nextService

theorem Consumes.deployment (h : s.Consumes t) : t.deployment = s.deployment := by
  rw [h.eq]

theorem consumes_counters {n : Counters} (h : s.counters ≤ n) : s.Consumes { s with counters := n } :=
  ⟨rfl, .refl _, h, s.nextService.le_refl⟩

theorem consumes_takeService (s : Server) : s.Consumes s.takeService.2 :=
  ⟨rfl, .refl _, s.counters.le_refl, s.nextService.le_succ⟩

theorem consults_applyEffects (s : Server) (fs : List Effect) :
    s.pool.Consults (s.applyEffects fs).2 := by
  unfold applyEffects
  split
  · rfl
  · exact s.engine.consults_apply s.pool fs

theorem consumes_submit (h : s.submit b = (.error e, t)) : s.Consumes t := by
  unfold submit at h
  split at h
  · cases h
    rfl
  · rename_i changed _
    simp only at h
    have hpool := s.consults_applyEffects
      (s.deployment.effects (s.deployment.rearbitrate changed).1 (Change.refreshed b.changes))
    split at h
    · rename_i heq
      cases h
      rw [heq] at hpool
      exact ⟨rfl, hpool, s.counters.le_refl, s.nextService.le_refl⟩
    · cases h

theorem counters_submit (s : Server) (b : Batch) : (s.submit b).2.counters = s.counters := by
  rw [submit_frame]

theorem submit_invalid_iff {label op : String} {k : Nat} {cause : ValidationError} :
    (s.submit b).1 = .error (.validation label k op cause) ↔
      b.label = label ∧ ∃ c, c.label = op ∧ s.deployment.FailsAt b.changes k c cause := by
  simp only [Deployment.failsAt_iff, submit]
  cases s.deployment.applyAll 0 b.changes with
  | error f => grind
  | ok changed =>
    simp only
    split <;> simp

end Server

namespace ConfigManager

theorem consumes_buildContexts (s : Server) (cs : List ContextDecl) :
    s.Consumes (buildContexts s cs).2 := by
  induction cs generalizing s with
  | nil => rfl
  | cons c cs ih =>
    have hbuild : s.counters ≤ (c.build s.counters).2 := s.counters.le_newContext c.name c.path
    unfold buildContexts
    split <;> rename_i heq <;> rw [heq] at hbuild
    · exact Server.consumes_counters hbuild
    · exact (Server.consumes_counters hbuild).trans (ih _)

theorem consumes_buildElements (s : Server) (es : List (String × ElementDecl)) :
    s.Consumes (buildElements s es).2 := by
  induction es generalizing s with
  | nil => rfl
  | cons e es ih =>
    obtain ⟨key, e⟩ := e
    have htake := s.consumes_takeService
    have hbuild := s.takeService.2.counters.le_build (e.builder s.takeService.1)
    simp only [buildElements, ElementDecl.build]
    split <;> rename_i heq <;> rw [heq] at hbuild
    · exact htake.trans (Server.consumes_counters hbuild)
    · exact (htake.trans (Server.consumes_counters hbuild)).trans (ih _)

theorem pool_buildContexts (s : Server) (cs : List ContextDecl) : (buildContexts s cs).2.pool = s.pool := by
  induction cs generalizing s with
  | nil => rfl
  | cons c cs ih =>
    unfold buildContexts
    split
    · rfl
    · exact ih _

theorem pool_buildElements (s : Server) (es : List (String × ElementDecl)) :
    (buildElements s es).2.pool = s.pool := by
  induction es generalizing s with
  | nil => rfl
  | cons e es ih =>
    simp only [buildElements]
    split
    · rfl
    · exact ih _

theorem pool_diff (m : ConfigManager) (s : Server) (new : Declared) : (m.diff s new).2.pool = s.pool := by
  have hcontexts := pool_buildContexts s (m.newContexts new)
  unfold diff
  split <;> rename_i t heq <;> rw [heq] at hcontexts
  · exact hcontexts
  · have helements := pool_buildElements t (m.newElements new)
    split <;> rename_i heq <;> rw [heq] at helements <;> exact helements.trans hcontexts

theorem consumes_diff (m : ConfigManager) (s : Server) (new : Declared) :
    s.Consumes (m.diff s new).2 := by
  have hcontexts := consumes_buildContexts s (m.newContexts new)
  unfold diff
  split <;> rename_i t heq <;> rw [heq] at hcontexts
  · exact hcontexts
  · have helements := consumes_buildElements t (m.newElements new)
    split <;> rename_i heq <;> rw [heq] at helements
    · exact hcontexts.trans helements
    · exact hcontexts.trans helements

end ConfigManager

/-- A server, and those who register on it, each with books of his own. -/
structure Host where
  server : Server
  whiteboard : Whiteboard := {}
  aliases : Aliases := {}
  manager : ConfigManager := {}
  deriving DecidableEq

namespace Host

inductive Request where
  | submit (b : Batch)
  | handle (event : Event)
  | register (owner : Module) (path : String) (target : AliasTarget) (context : Option ContextId)
  | unregister (owner : Module) (path : String)
  | unregisterAll (owner : Module)
  | declare (new : Declared)

def perform (x : Host) : Request → Except ServerError Unit × Host
  | .submit b =>
    let (r, server) := x.server.submit b
    ((r.mapError .batch).map fun _ => (), { x with server })
  | .handle event =>
    let (r, whiteboard, server) := x.whiteboard.handle x.server event
    ((r.mapError .batch).map fun _ => (), { x with server, whiteboard })
  | .register owner path target context =>
    let (r, aliases, server) := x.aliases.register x.server owner path target context
    (r.map fun _ => (), { x with server, aliases })
  | .unregister owner path =>
    let (r, aliases, server) := x.aliases.unregister x.server owner path
    (r, { x with server, aliases })
  | .unregisterAll owner =>
    let (r, aliases, server) := x.aliases.unregisterAll x.server owner
    (r, { x with server, aliases })
  | .declare new =>
    let (r, manager, server) := x.manager.apply x.server new
    (r.map fun _ => (), { x with server, manager })

def batch (x : Host) : Request → Option Batch
  | .submit b => some b
  | .handle event =>
    let changes := (x.whiteboard.respond x.server.deployment event).1
    if changes.isEmpty then none else some ⟨event.label, changes⟩
  | .register owner path target context =>
    if Aliases.isValid path && !x.aliases.entries.contains path then
      let builder := Aliases.builder owner path target context x.server.nextService
      (builder.build x.server.counters).1.toOption.map fun e =>
        ⟨"register alias " ++ path, [.addElement e]⟩
    else none
  | .unregister owner path =>
    ((x.aliases.entries.find? path).filter (·.owner = owner)).map fun found =>
      ⟨"unregister alias " ++ path, [.removeElement found.element]⟩
  | .unregisterAll owner =>
    let owned := (x.aliases.entries.filter fun _ a => a.owner = owner).values.map (·.element)
    if owned.isEmpty then none
    else some ⟨"unregister aliases of " ++ owner.label, owned.map .removeElement⟩
  | .declare new =>
    match (x.manager.diff x.server new).1 with
    | .ok (changes, _) => if changes.isEmpty then none else some ⟨"config reload", changes⟩
    | .error _ => none

/-- How a request can end. Whatever is done before its batch is submitted, nobody is asked for an
instance. -/
inductive Handled (x : Host) (r : Request) : Except ServerError Unit × Host → Prop
  | idle (y : Host) (h : x.batch r = none) (hs : x.server.Consumes y.server)
      (hpool : y.server.pool = x.server.pool) : Handled x r (.ok (), y)
  | refused (e : ServerError) (s : Server) (h : x.batch r = none) (he : ∀ err, e ≠ .batch err)
      (hs : x.server.Consumes s) (hpool : s.pool = x.server.pool) :
      Handled x r (.error e, { x with server := s })
  | committed (b : Batch) (s : Server) (report : Report) (y : Host) (h : x.batch r = some b)
      (hs : x.server.Consumes s) (hok : s.submit b = (.ok report, y.server))
      (hpool : s.pool = x.server.pool) : Handled x r (.ok (), y)
  | rejected (b : Batch) (s t : Server) (e : BatchError) (h : x.batch r = some b)
      (hs : x.server.Consumes s) (herr : s.submit b = (.error e, t)) (hpool : s.pool = x.server.pool) :
      Handled x r (.error (.batch e), { x with server := t })

theorem handled_submit (x : Host) (b : Batch) : x.Handled (.submit b) (x.perform (.submit b)) := by
  rw [perform]
  rcases h : x.server.submit b with ⟨e | report, t⟩
  · exact .rejected b x.server t e (by rfl) (.refl _) h rfl
  · exact .committed b x.server report _ (by rfl) (.refl _) h rfl

theorem handled_handle (x : Host) (event : Event) :
    x.Handled (.handle event) (x.perform (.handle event)) := by
  simp only [perform, Whiteboard.handle]
  split
  · rename_i hempty
    exact .idle _ (if_pos hempty) (.refl _) rfl
  · rename_i hne
    split <;> rename_i heq
    · exact .committed _ x.server _ _ (if_neg hne) (.refl _) heq rfl
    · exact .rejected _ x.server _ _ (if_neg hne) (.refl _) heq rfl

theorem handled_register (x : Host) (owner : Module) (path : String) (target : AliasTarget)
    (context : Option ContextId) :
    x.Handled (.register owner path target context)
      (x.perform (.register owner path target context)) := by
  simp only [perform, Aliases.register]
  split
  · exact .refused _ x.server (if_neg (by simp_all)) (by simp) (.refl _) rfl
  split
  · exact .refused _ x.server (if_neg (by simp_all)) (by simp) (.refl _) rfl
  rename_i hvalid hfree
  have hbatch : x.batch (.register owner path target context) = _ := if_pos (by simp_all)
  have hbuild := x.server.counters.le_build
    (Aliases.builder owner path target context x.server.nextService)
  rcases hb : (Aliases.builder owner path target context x.server.nextService).build
    x.server.counters with ⟨e | e, n⟩ <;> rw [hb] at hbuild hbatch <;>
    have hs := x.server.consumes_takeService.trans (Server.consumes_counters hbuild)
  · simp only [Aliases.deploy, Server.takeService, hb]
    exact .refused _ _ hbatch (by simp) hs rfl
  · rcases hsub : Server.submit { x.server.takeService.2 with counters := n }
      ⟨"register alias " ++ path, [.addElement e]⟩ with ⟨err | report, t⟩ <;>
      simp only [Server.takeService] at hsub <;>
      simp only [Aliases.deploy, Server.takeService, hb, hsub]
    · exact .rejected _ _ _ _ hbatch hs hsub rfl
    · exact .committed _ _ _ _ hbatch hs hsub rfl

theorem handled_unregister (x : Host) (owner : Module) (path : String) :
    x.Handled (.unregister owner path) (x.perform (.unregister owner path)) := by
  simp only [perform, Aliases.unregister]
  split
  · rename_i hnone
    exact .refused _ x.server (by rw [batch, hnone]; rfl) (by simp) (.refl _) rfl
  · rename_i hsome
    split <;> rename_i heq
    · exact .committed _ x.server _ _ (by rw [batch, hsome]; rfl) (.refl _) heq rfl
    · exact .rejected _ x.server _ _ (by rw [batch, hsome]; rfl) (.refl _) heq rfl

theorem handled_unregisterAll (x : Host) (owner : Module) :
    x.Handled (.unregisterAll owner) (x.perform (.unregisterAll owner)) := by
  simp only [perform, Aliases.unregisterAll]
  split
  · rename_i hempty
    exact .idle _ (if_pos hempty) (.refl _) rfl
  · rename_i hne
    split <;> rename_i heq
    · exact .committed _ x.server _ _ (if_neg hne) (.refl _) heq rfl
    · exact .rejected _ x.server _ _ (if_neg hne) (.refl _) heq rfl

theorem handled_declare (x : Host) (new : Declared) :
    x.Handled (.declare new) (x.perform (.declare new)) := by
  have hdiff := x.manager.consumes_diff x.server new
  have hpool := x.manager.pool_diff x.server new
  simp only [perform, ConfigManager.apply]
  split
  · rename_i heq
    rw [heq] at hdiff hpool
    exact .refused _ _ (by rw [batch, heq]) (by simp) hdiff hpool
  · rename_i changes added s heq
    rw [heq] at hdiff hpool
    split
    · rename_i hempty
      exact .idle _ (by rw [batch, heq]; exact if_pos hempty) hdiff hpool
    · rename_i hne
      split <;> rename_i hsub
      · exact .committed _ s _ _ (by rw [batch, heq]; exact if_neg hne) hdiff hsub hpool
      · exact .rejected _ s _ _ (by rw [batch, heq]; exact if_neg hne) hdiff hsub hpool

theorem handled_perform (x : Host) (r : Request) : x.Handled r (x.perform r) :=
  match r with
  | .submit b => x.handled_submit b
  | .handle event => x.handled_handle event
  | .register owner path target context => x.handled_register owner path target context
  | .unregister owner path => x.handled_unregister owner path
  | .unregisterAll owner => x.handled_unregisterAll owner
  | .declare new => x.handled_declare new

/-- A request that fails changes nothing, but for numbers given out and listeners made. If it fails for
an invalid change, this is the first change of its batch that is invalid after the ones before it. -/
theorem perform_error (x : Host) (r : Request) :
    let y := (x.perform r).2
    (∀ e, (x.perform r).1 = .error e →
      x.server.Consumes y.server ∧ y = { x with server := y.server } ∧
        y.server.table = x.server.table) ∧
    ∀ label k op cause, (x.perform r).1 = .error (.batch (.validation label k op cause)) ↔
      ∃ b c, x.batch r = some b ∧ b.label = label ∧ c.label = op ∧
        x.server.deployment.FailsAt b.changes k c cause := by
  -- only how the request ended matters from here on, not what kind it was
  have hhandled := x.handled_perform r
  generalize x.perform r = result at hhandled
  constructor
  · intro e h
    suffices hs : x.server.Consumes result.2.server ∧
        result.2 = { x with server := result.2.server } by
      refine ⟨hs.1, hs.2, ?_⟩
      rw [hs.1.eq]
      rfl
    cases hhandled with
    | idle | committed => cases h
    | refused _ s _ _ hs => exact ⟨hs, rfl⟩
    | rejected b s t e _ hs herr => exact ⟨hs.trans (Server.consumes_submit herr), rfl⟩
  · intro label k op cause
    cases hhandled with
    | idle y h => simp [h]
    | refused e s h he hs => simp [h, he]
    | committed b s report y h hs hok =>
      have hiff : (s.submit b).1 = .error (.validation label k op cause) ↔ _ :=
        Server.submit_invalid_iff
      rw [hok, hs.deployment] at hiff
      simpa [h] using hiff
    | rejected b s t e h hs herr =>
      have hiff : (s.submit b).1 = .error (.validation label k op cause) ↔ _ :=
        Server.submit_invalid_iff
      rw [herr, hs.deployment] at hiff
      simpa [h] using hiff

/-- A listener whose supplier fails the first time: the call counts, but nothing else is left. -/
theorem perform_error_supplier :
    let x : Host := ⟨(Server.new {} (.inProcess {}) {}).start.2, {}, {}, {}⟩
    let waking : Element :=
      { Element.catchAll 1 with
        details := .listener (.supplier .singleton (.tagged "up" true) 1 "asleep") }
    let r : Request := .handle (.registered waking .default)
    let y := (x.perform r).2
    let ranks : Batch := ⟨"ranks", [.updateRank "default" 1, .removeElement 7]⟩
    y.server ≠ x.server ∧ x.server.Consumes y.server ∧ y = { x with server := y.server } ∧
      y.server.table = x.server.table ∧
      (x.perform (.submit ranks)).1 =
        .error (.batch (.validation "ranks" 1 "remove element #7" (.unknownElement 7))) := by
  intro x waking r y ranks
  have hne : y.server ≠ x.server := by decide +kernel
  have hrefused : (x.perform r).1 =
      .error (.batch (.engine "register listener \"echo\" #1" (InProcess.refuse
        "activate listener \"echo\" #1 in /"
        "element supplier could not be instantiated: asleep"))) := by decide +kernel
  have hfails : x.server.deployment.FailsAt ranks.changes 1 (.removeElement 7) (.unknownElement 7) :=
    Deployment.failsAt_iff.2 (by decide +kernel)
  have hlabel : (Change.removeElement 7).label = "remove element #7" := by decide +kernel
  obtain ⟨hconsumes, hbooks, htable⟩ := (perform_error x r).1 _ hrefused
  exact ⟨hne, hconsumes, hbooks, htable,
    ((perform_error x (.submit ranks)).2 _ _ _ _).2 ⟨ranks, _, rfl, rfl, hlabel, hfails⟩⟩

end Host

end ServletContainer
