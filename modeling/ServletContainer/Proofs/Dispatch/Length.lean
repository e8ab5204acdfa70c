import ServletContainer.Proofs.Dispatch.Inquiry
import ServletContainer.Proofs.Dispatch.Lookups
import ServletContainer.Proofs.Dispatch.Passing
import ServletContainer.Proofs.Dispatch.Resource

/-! The length that a response states. A resource states the length of the file that it serves, and writes the
file to a body that others write to as well; errors drop the body and leave the stated length. So what is
stated is the length of the file that was served last: that of the target, once it has been called
(`Dispatch.keeps_runSecured`), or else that of an error page, which is then all of the body
(`Dispatch.Measured.answered`). -/
namespace ServletContainer

def measure (body : Bytes) : Bytes := Utf8.encode (toString body.length)

theorem measure_eq_iff {a b : Bytes} : measure a = measure b ↔ a.length = b.length := by
  refine ⟨fun h => ?_, fun h => by rw [measure, measure, h]⟩
  have hdigits : Nat.toDigits 10 a.length = Nat.toDigits 10 b.length :=
    String.ofList_injective (Utf8.encode_injective h)
  rw [← Nat.ofDigitChars_ten_toDigits (n := a.length), hdigits, Nat.ofDigitChars_ten_toDigits]

namespace Response

variable {r : Response} {name value : String}

def stated (r : Response) : Option Bytes := r.headers.get? "content-length"

/-- If a length is stated, it is that of the body. -/
def Truthful (r : Response) : Prop := ∀ length, r.stated = some length → length = measure r.body

theorem stated_setHeader (h : Headers.keyOf name ≠ "content-length") (r : Response) (value : String) :
    (r.setHeader name value).stated = r.stated := by
  rw [stated, setHeader, Headers.get?_put, if_neg]
  · rfl
  · exact fun hname => h hname.2.symm

theorem stated_sendRedirect (r : Response) (location : String) :
    (r.sendRedirect location).stated = r.stated := by
  unfold sendRedirect
  split
  · exact stated_setHeader (by decide) _ location
  · rfl

theorem stated_reply (i : Inquiry) (fs : Files) (r : Response) :
    (i.reply fs r).stated = ((i.content fs).map measure).or r.stated := by
  unfold Inquiry.reply
  cases h : i.content fs with
  | none => rfl
  | some bytes =>
    have hset (r : Response) : ((r.setHeader "content-length" (toString bytes.length)).write bytes).stated =
        some (measure bytes) := by
      rw [write, stated, setHeader, Headers.get?_put, if_pos ⟨by decide, rfl⟩]
      rfl
    exact hset _

theorem truthful_iff {served : Option Bytes} (h : r.stated = served.map measure) :
    r.Truthful ↔ ∀ file, served = some file → r.body.length = file.length := by
  rw [Truthful, h]
  constructor
  · rintro hr file rfl
    exact (measure_eq_iff.1 (hr _ rfl)).symm
  · intro hfile length hlength
    obtain ⟨file, rfl, rfl⟩ := Option.map_eq_some_iff.1 hlength
    exact measure_eq_iff.2 (hfile file rfl).symm

end Response

section Sparing

def Action.sparesLength : Action → Bool
  | .header name _ => Headers.keyOf name ≠ "content-length"
  | _ => true

def Servlet.sparesLength : Servlet → Bool
  | .script as => as.all Action.sparesLength
  | _ => true

def Filter.sparesLength : Filter → Bool
  | .script as => as.all Action.sparesLength
  | .accessLog => true

def Helper.sparesLength : Helper → Bool
  | .scripted _ security .. => security.all Action.sparesLength
  | _ => true

/-- Whatever the servlets of the mount turn out to be, they do not set the length. -/
def Mount.SparesLength (m : Mount) (pool : Pool) : Prop :=
  ∀ s ∈ m.servlets, ∀ source a, s.element.details = .servlet source →
    pool.servlets.offer s.element.id source = some a → a.sparesLength

theorem Mount.SparesLength.servlet {m : Mount} {pool : Pool} (h : m.SparesLength pool)
    {s : ActiveServlet} (hs : s ∈ m.servlets) {source : Source Servlet}
    (hd : s.element.details = .servlet source) :
    m.SparesLength (pool.servlet s.element.id source).2 := by
  intro t ht source' a hd' ha
  rcases Roster.offer_resolve ha with ha | ⟨_, ha⟩
  · exact h t ht source' a hd' ha
  · exact h s hs source a hd ha

theorem Script.stated_act {a : Action} (h : a.sparesLength) (env : Surroundings) (number : Nat)
    (remaining : Option Nat) (x : Exchange) :
    (act env number remaining x a).response.stated = x.response.stated := by
  cases a with
  | header name value =>
    simp only [act]
    split
    · exact Response.stated_setHeader (by simpa [Action.sparesLength] using h) _ value
    · rfl
  | redirect location => exact x.response.stated_sendRedirect location
  | requestHeader =>
    simp only [act]
    split <;> rfl
  | _ => rfl

end Sparing

/-- A step of an exchange keeps what is known of it. -/
def Handler.Keeps (P : Exchange → Prop) (h : Handler) : Prop := ∀ x, P x → P (h x).2

section Keeping

variable {env : Surroundings} {P : Exchange → Prop}

theorem Script.keeps_run {number : Nat} {as : Script}
    (hact : ∀ a ∈ as, ∀ remaining x, P x → P (act env number remaining x a))
    (hwrite : ∀ x text, P x → P (x.write text)) (next : Option (Nat × Handler))
    (hnext : ∀ n h, next = some (n, h) → Handler.Keeps P h) :
    Handler.Keeps P (run env number next as) := by
  induction as generalizing next with
  | nil => exact fun x hx => hx
  | cons a as ih =>
    intro x hx
    have ih := ih fun b hb => hact b (List.mem_cons_of_mem a hb)
    have hrest : P (run env number next as (act env number (next.map (·.1)) x a)).2 :=
      ih next hnext _ (hact a List.mem_cons_self _ x hx)
    cases a with
    | fail k m => exact hx
    | panic m => exact hx
    | proceed => cases next with
      | none => exact hrest
      | some next =>
        have hpassed := hnext _ _ rfl x hx
        simp only [run, Handler.andThen]
        split <;> rename_i hy <;> rw [hy] at hpassed
        · exact ih none (by simp) _ hpassed
        · exact hpassed
    | proceedCatch => cases next with
      | none => exact hrest
      | some next =>
        have hpassed := hnext _ _ rfl x hx
        simp only [run]
        split <;> rename_i hy <;> rw [hy] at hpassed
        · exact ih none (by simp) _ hpassed
        · exact ih none (by simp) _ (hwrite _ _ hpassed)
        · exact hpassed
    | _ => exact hrest

theorem Filter.keeps_chain {fs : Chain} {last : Handler}
    (hcalled : ∀ f ∈ fs, ∀ x, P x → P (x.called f.1))
    (hact : ∀ f ∈ fs, ∀ as, f.2.behaviour = .script as → ∀ a ∈ as, ∀ remaining x, P x →
      P (Script.act env f.2.number remaining x a))
    (hwrite : ∀ x text, P x → P (x.write text)) (hlast : Handler.Keeps P last) :
    Handler.Keeps P (chain env fs last) := by
  induction fs with
  | nil => exact hlast
  | cons f fs ih =>
    have hrest : Handler.Keeps P (chain env fs last) :=
      ih (fun g hg => hcalled g (List.mem_cons_of_mem f hg))
        fun g hg => hact g (List.mem_cons_of_mem f hg)
    intro x hx
    have hx := hcalled f List.mem_cons_self x hx
    have hact := hact f List.mem_cons_self
    cases hbehaviour : f.2.behaviour with
    | script as =>
      simp only [chain, Handler.calling, handle, hbehaviour]
      refine Script.keeps_run (hact as hbehaviour) hwrite _ (fun n h heq => ?_) _ hx
      cases heq
      exact hrest
    | accessLog =>
      simp only [chain, Handler.calling, handle, hbehaviour]
      exact hrest _ hx

end Keeping

def ActiveServlet.file (s : ActiveServlet) (fs : Files) (pm : PatternMatch) : Option Bytes :=
  (s.inquiry pm).bind (·.content fs)

def Target.file (fs : Files) : Target → Option Bytes
  | .servlet s pm => s.file fs pm
  | _ => none

namespace Dispatch

variable {env : Surroundings} {p : Plan} {x y : Exchange} {s : ActiveServlet} {pm : PatternMatch}

theorem stated_service {i : Instance Servlet} (h : i.behaviour.sparesLength) (x : Exchange) :
    (Servlet.service env i x).2.response.stated = x.response.stated := by
  have hjson (r : Response) (value : String) : (r.setHeader "content-type" value).stated = r.stated :=
    Response.stated_setHeader (by decide) r value
  cases hs : i.behaviour with
  | script as =>
    rw [hs] at h
    simp only [Servlet.service, hs]
    exact Script.keeps_run (P := fun y => y.response.stated = x.response.stated)
      (fun a ha remaining y hy => (Script.stated_act (List.all_eq_true.1 h a ha) env _ remaining y).trans hy)
      (fun _ _ hy => hy) none (by simp) x rfl
  | echo =>
    simp only [Servlet.service, hs]
    exact hjson _ _
  | inspect =>
    simp only [Servlet.service, hs, Servlet.inspection]
    split
    · rfl
    · exact hjson _ _

theorem stated_invoke (hget : x.request.method = "GET") (hservlet : x.request.servletPath = pm.servletPath)
    (hinfo : x.request.pathInfo = pm.pathInfo)
    (hs : ∀ source a, s.element.details = .servlet source →
      x.pool.servlets.offer s.element.id source = some a → a.sparesLength) :
    (invoke env s x).2.response.stated = ((s.file env.files pm).map measure).or x.response.stated := by
  cases hi : s.inquiry pm with
  | some i =>
    rw [(invoke_eq_reply env hi hget hservlet hinfo).2, Response.stated_reply, ActiveServlet.file, hi]
    rfl
  | none =>
    rw [ActiveServlet.file, hi]
    simp only [invoke]
    split
    · rename_i source hd
      have hlookup : (x.pool.servlet s.element.id source).1 =
          (x.pool.servlets.resolve s.element.id source).1 := rfl
      split
      · rename_i i pool hfound
        have hfound' : (x.pool.servlets.resolve s.element.id source).1 = .ok i := congrArg Prod.fst hfound
        exact stated_service (hs source _ hd (Roster.offer_of_resolve hfound')) _
      · rfl
    · rename_i folder hd
      have hnone : s.context = none := by simpa [ActiveServlet.inquiry, hd] using hi
      simp only [Resource.service, Exchange.setRequest, hget, hnone, Option.map_none]
      rw [if_neg (by simp)]
      rfl
    · rfl

/-- What is known of a GET request on its way: a length is stated once the target has been called, and that is
the length of the target's file. -/
structure Measured (env : Surroundings) (p : Plan) (x : Exchange) : Prop where
  get : x.request.method = "GET"
  servlets : p.mount.SparesLength x.pool
  stated : x.response.stated =
    if .target ∈ x.calls then (p.target.file env.files).map measure else none

theorem Measured.of_eq (h : Measured env p x) (hmethod : y.request.method = x.request.method)
    (hpool : y.pool = x.pool) (hcalls : .target ∈ y.calls ↔ .target ∈ x.calls)
    (hstated : y.response.stated = x.response.stated) : Measured env p y where
  get := hmethod.trans h.get
  servlets := hpool ▸ h.servlets
  stated := by rw [hstated, h.stated]; simp only [hcalls]

theorem Measured.called (h : Measured env p x) {c : Call} (hc : c ≠ .target) : Measured env p (x.called c) :=
  h.of_eq rfl rfl (by simp [hc.symm]) rfl

theorem Measured.act (h : Measured env p x) {a : Action} (ha : a.sparesLength) (number : Nat)
    (remaining : Option Nat) : Measured env p (Script.act env number remaining x a) := by
  have hcalls : (Script.act env number remaining x a).calls = x.calls :=
    congrArg Prod.fst ((steady_record env).act number remaining x a)
  exact h.of_eq ((steady_method env).act ..) ((steady_pool env).act ..) (by rw [hcalls])
    (Script.stated_act ha env number remaining x)

theorem keeps_target (hserves : ∀ s pm, p.target = .servlet s pm → s ∈ p.mount.servlets) :
    Handler.Keeps (Measured env p) (runTarget env p) := by
  intro x hx
  have hcalls : (runTarget env p x).2.calls = x.calls ++ [.target] :=
    congrArg Prod.fst (record_runTarget env p x)
  have hmember : .target ∈ (runTarget env p x).2.calls := by simp [hcalls]
  suffices h : (runTarget env p x).2.request.method = x.request.method ∧
      p.mount.SparesLength (runTarget env p x).2.pool ∧
      (runTarget env p x).2.response.stated =
        ((p.target.file env.files).map measure).or x.response.stated by
    refine ⟨h.1.trans hx.get, h.2.1, h.2.2.trans ?_⟩
    rw [if_pos hmember, hx.stated]
    split <;> cases (p.target.file env.files).map measure <;> rfl
  unfold runTarget
  split
  · rename_i s pm htarget
    have hs := hserves s pm htarget
    let y := (Plan.aim p pm x).called .target
    have hmethod : (invoke env s y).2.request.method = y.request.method :=
      steady_invoke env (steady_method env) (fun _ _ => rfl) (fun _ _ => rfl) s y
    refine ⟨hmethod, ?_, ?_⟩
    · rw [pool_invoke env s y, ActiveServlet.acts]
      split
      · exact hx.servlets.servlet hs ‹_›
      · exact hx.servlets
    · rw [htarget]
      exact stated_invoke (x := y) hx.get rfl rfl fun source a => hx.servlets s hs source a
  · rename_i htarget
    rw [htarget]
    exact ⟨rfl, hx.servlets, Response.stated_sendRedirect ..⟩
  · rename_i htarget
    rw [htarget]
    exact ⟨rfl, hx.servlets, rfl⟩

/-- Nobody around the target sets the length, and no servlet that the mount may serve. -/
structure SparesLength (p : Plan) (pre filters : Filter.Chain) (pool : Pool) : Prop where
  filters : ∀ f ∈ pre ++ filters, f.2.behaviour.sparesLength
  security : ∀ c, p.view = some c → c.helper.sparesLength
  servlets : p.mount.SparesLength pool

theorem keeps_chain {fs : Filter.Chain} {last : Handler} (hfs : ∀ f ∈ fs, f.2.behaviour.sparesLength)
    (hbefore : IsBefore fs) (hlast : Handler.Keeps (Measured env p) last) :
    Handler.Keeps (Measured env p) (Filter.chain env fs last) := by
  refine Filter.keeps_chain (fun f hf x hx => hx.called (hbefore f hf)) (fun f hf as has a ha remaining x hx => ?_)
    (fun x text hx => hx.of_eq rfl rfl Iff.rfl rfl) hlast
  have hspares := hfs f hf
  rw [has] at hspares
  exact hx.act (List.all_eq_true.1 hspares a ha) f.2.number remaining

theorem Measured.security (h : Measured env p x) {helper : Helper} (hspares : helper.sparesLength) :
    Measured env p (helper.handleSecurity env x).2 := by
  unfold Helper.handleSecurity
  split
  · exact h
  · exact h
  · split
    · exact h
    · exact h.of_eq rfl rfl Iff.rfl rfl
  · rename_i security _ _
    have hrun : Measured env p (Script.run env 0 none security x).2 :=
      Script.keeps_run (fun a ha remaining x hx => hx.act (List.all_eq_true.1 hspares a ha) 0 remaining)
        (fun x text hx => hx.of_eq rfl rfl Iff.rfl rfl) none (by simp) x h
    split <;> rename_i hy <;> rw [hy] at hrun <;> exact hrun

theorem Measured.finish (h : Measured env p x) : Measured env p (Dispatch.finish env p x).2 := by
  cases hview : p.view with
  | none =>
    simp only [Dispatch.finish, hview]
    exact h
  | some c =>
    simp only [Dispatch.finish, hview]
    have hcalls : (c.helper.finishSecurity env (x.called .finish)).2.calls = x.calls ++ [.finish] :=
      ((c.helper.discreet_finishSecurity env).quiet (x.called .finish)).trans (x.calls_called .finish)
    exact h.of_eq (c.helper.steady_finishSecurity env (steady_method env) (x.called .finish))
      (c.helper.steady_finishSecurity env (steady_pool env) (x.called .finish))
      (by simp [Handler.calling, hcalls])
      (congrArg Response.stated (c.helper.response_finishSecurity env (x.called .finish)))

theorem Measured.conclude (h : Measured env p x) (r : Except Fault Bool) :
    Measured env p (Dispatch.conclude r x).2 := by
  unfold Dispatch.conclude
  split
  · exact h.of_eq rfl rfl Iff.rfl rfl
  · simp only
    split <;> exact h.of_eq rfl rfl Iff.rfl rfl
  · exact h.of_eq rfl rfl Iff.rfl rfl

section Running

variable {pre filters : Filter.Chain} {pool : Pool} (hspares : SparesLength p pre filters pool)
  (hserves : ∀ s pm, p.target = .servlet s pm → s ∈ p.mount.servlets) (hbefore : IsBefore (pre ++ filters))

include hspares hserves hbefore

theorem Measured.guarded (h : Measured env p x) : Measured env p (Dispatch.guarded env p filters x).2 := by
  have hinside : Handler.Keeps (Measured env p)
      (Filter.chain env filters (runTarget env p)) :=
    keeps_chain (fun f hf => hspares.filters f (List.mem_append_right pre hf))
      (fun f hf => hbefore f (List.mem_append_right pre hf)) (keeps_target hserves)
  unfold Dispatch.guarded
  cases hview : p.view with
  | none => exact hinside x h
  | some c =>
    have hsecurity := (h.called (c := .security) nofun).security (hspares.security c hview)
    simp only
    split
    · rename_i hy
      rw [hy] at hsecurity
      exact hinside _ hsecurity
    · exact hsecurity

theorem keeps_runSecured : Handler.Keeps (Measured env p) (runSecured env p filters) := by
  intro x hx
  unfold runSecured
  split
  · exact hx.of_eq rfl rfl Iff.rfl rfl
  · have hfinished := (hx.guarded hspares hserves hbefore).finish
    simp only [Handler.andThen]
    split <;> rename_i hy <;> rw [hy] at hfinished
    · exact hfinished.conclude _
    · exact hfinished

end Running

theorem servlets_chain {pool pool' : Pool} {call : ElementId → Call} {es : List Element}
    {r : Except DispatchError Filter.Chain} (h : pool.chain call es = (r, pool')) :
    pool'.servlets = pool.servlets := by
  induction es generalizing pool r with
  | nil =>
    cases h
    rfl
  | cons e es ih =>
    unfold Pool.chain at h
    split at h
    · rename_i source _ _ _
      have hfilter : (pool.filter e.id source).2.servlets = pool.servlets := rfl
      split at h <;> rename_i hfound <;> rw [hfound] at hfilter
      · cases h
        exact hfilter
      · cases h
        exact (ih rfl).trans hfilter
    · exact ih h

theorem mem_servlets_of_target {t : Table} {fs : Files} {path : String}
    (hp : t.compose fs path = some p) (htarget : p.target = .servlet s pm) : s ∈ p.mount.servlets := by
  obtain ⟨_, _, hselect⟩ := p.mount.select_of_target ((t.tail_of_compose hp).2.symm.trans htarget)
  exact (Mount.select_eq_some hselect).1

def pageOf (p : Plan) (failure : Option ServletError) (r : Response) :
    Option (ActiveServlet × PatternMatch) :=
  (errorStatus failure r).bind (errorPage p failure)

/-- What an error page adds: a file is all that is in the body, and its length is stated. -/
theorem Measured.answered {failure : Option ServletError} {r : Except DispatchError Unit}
    (h : Measured env p x) (hanswered : Answered env p failure x r y) (hok : r = .ok ()) :
    let file := (pageOf p failure x.response).bind fun page => page.1.file env.files page.2
    y.response.stated = (file.map measure).or x.response.stated ∧
      ∀ bytes, file = some bytes → y.response.body = bytes := by
  have hnone (hno : pageOf p failure x.response = none) :
      let file := (pageOf p failure x.response).bind fun page => page.1.file env.files page.2
      x.response.stated = (file.map measure).or x.response.stated ∧
        ∀ bytes, file = some bytes → x.response.body = bytes := by
    rw [hno]
    exact ⟨rfl, nofun⟩
  cases hanswered with
  | well hwell => exact hnone (by rw [pageOf, errorStatus_eq_none_iff.2 hwell]; rfl)
  | unserved hails hpage =>
    exact hnone (by rw [pageOf, errorStatus_eq_some_iff.2 hails]; exact hpage)
  | broken => cases hok
  | @served status s pm y hails hpage hy =>
    obtain ⟨_, _, hselect⟩ := Option.bind_eq_some_iff.1 hpage
    have hs := (Mount.select_eq_some hselect).1
    have hpageOf : pageOf p failure x.response = some (s, pm) := by
      rw [pageOf, errorStatus_eq_some_iff.2 hails]
      exact hpage
    have hstated : (invoke env s (forwarded p failure status (s, pm) x)).2.response.stated = _ :=
      stated_invoke h.get rfl rfl fun source a => h.servlets s hs source a
    rw [hy] at hstated
    rw [hpageOf]
    refine ⟨hstated, fun bytes hbytes => ?_⟩
    have hbytes : s.file env.files pm = some bytes := hbytes
    obtain ⟨i, hi, hcontent⟩ := Option.bind_eq_some_iff.1 hbytes
    obtain ⟨_, hresponse⟩ := invoke_eq_reply env (x := forwarded p failure status (s, pm) x) hi h.get rfl rfl
    rw [hy] at hresponse
    have hbody : y.response.body = [] ++ bytes := by rw [hresponse, Inquiry.body_reply hcontent]; rfl
    exact hbody

theorem OnlyPassed.served (h : OnlyPassed env p x) (hget : x.request.method = "GET") {bytes : Bytes}
    (hfile : p.target.file env.files = some bytes) (hblank : x.response = {}) :
    (runPlan env p x).2.response.body = bytes ∧ (runPlan env p x).2.response.Truthful := by
  unfold Target.file at hfile
  split at hfile
  · rename_i s pm htarget
    obtain ⟨i, hi, hcontent⟩ := Option.bind_eq_some_iff.1 hfile
    obtain ⟨_, hresponse⟩ := h.answer_eq_reply hget hblank htarget hi hcontent
    have hbody : (i.reply env.files {}).body = bytes := Inquiry.body_reply hcontent {}
    have hstated : (i.reply env.files {}).stated = some (measure bytes) := by
      rw [Response.stated_reply, hcontent]
      rfl
    rw [hresponse]
    refine ⟨hbody, fun length hlength => ?_⟩
    rw [hbody]
    exact Option.some.inj (hlength.symm.trans hstated)
  · cases hfile

end Dispatch

end ServletContainer
