import ServletContainer.Dispatch.Execute
import ServletContainer.Proofs.Context.Resource

/-! What resources look up. A resource finds its file by one question, which it puts to the helper of a
context on behalf of a module. The check of a welcome file asks what its match leads to
(`Mount.isUsable_eq`), the service what its request leads to (`Resource.service_eq_reply`), and a request
that is pointed to a match leads to the same question (`Dispatch.invoke_eq_service`). -/
namespace ServletContainer

/-- A question for the file of a name, on behalf of a module. -/
structure Inquiry where
  helper : Helper
  module : Option Module
  name : String

namespace Inquiry

variable {i : Inquiry} {fs fs' : Files} {f : String} {bytes : Bytes}

def answer (i : Inquiry) (fs : Files) : Option String := i.helper.resource fs i.module i.name

def content (i : Inquiry) (fs : Files) : Option Bytes := (i.answer fs).bind fs.read?

def reply (i : Inquiry) (fs : Files) (r : Response) : Response :=
  match i.content fs with
  | none => r.sendError 404
  | some bytes =>
    let r := match i.helper.mimeType i.name with
      | some m => r.setHeader "content-type" m
      | none => r
    (r.setHeader "content-length" (toString bytes.length)).write bytes

theorem content_of_read? (h : i.answer fs = some f) (hroot : fs'.root = fs.root)
    (hread : fs'.read? f = some bytes) : i.content fs' = some bytes := by
  have hfile : fs'.isFile f := by rw [Files.isFile, hread]; rfl
  have hanswer : i.answer fs' = some f := Helper.resource_of_isFile h hroot hfile
  rw [content, hanswer]
  exact hread

theorem status_reply (h : i.content fs = some bytes) (r : Response) :
    (i.reply fs r).status = r.status := by
  simp only [reply, h]
  split <;> rfl

theorem body_reply (h : i.content fs = some bytes) (r : Response) :
    (i.reply fs r).body = r.body ++ bytes := by
  simp only [reply, h]
  split <;> rfl

end Inquiry

def ActiveServlet.inquiry (s : ActiveServlet) (pm : PatternMatch) : Option Inquiry :=
  match s.element.details with
  | .resource folder => s.context.map fun c =>
    ⟨c.helper, s.element.owner, Resource.nameOf folder pm.servletPath pm.pathInfo⟩
  | _ => none

def Request.inquiry (q : Request) (folder : String) : Option Inquiry :=
  q.view.map fun v => ⟨v.context.helper, v.module, Resource.nameOf folder q.servletPath q.pathInfo⟩

variable {s : ActiveServlet} {pm : PatternMatch} {folder : String} {i : Inquiry} {x : Exchange}

theorem ActiveServlet.inquiry_eq_some_iff : s.inquiry pm = some i ↔
    ∃ folder c, s.element.details = .resource folder ∧ s.context = some c ∧
      i = ⟨c.helper, s.element.owner, Resource.nameOf folder pm.servletPath pm.pathInfo⟩ := by
  unfold inquiry
  split
  · rename_i folder hd
    rw [hd, Option.map_eq_some_iff]
    constructor
    · rintro ⟨c, hc, rfl⟩
      exact ⟨folder, c, rfl, hc, rfl⟩
    · rintro ⟨folder', c, hfolder, hc, rfl⟩
      cases hfolder
      exact ⟨c, hc, rfl⟩
  · rename_i hno
    simp only [reduceCtorEq, false_iff]
    rintro ⟨folder, c, hd, _⟩
    exact hno folder hd

theorem Mount.isUsable_eq (hd : s.element.details = .resource folder) (fs : Files) (pm : PatternMatch) :
    Mount.isUsable fs s pm = (s.inquiry pm).any fun i => (i.answer fs).isSome := by
  simp only [isUsable, ActiveServlet.inquiry, hd]
  cases s.context <;> rfl

theorem Resource.service_eq_reply (env : Surroundings) (hget : x.request.method = "GET")
    (h : x.request.inquiry folder = some i) :
    Resource.service env folder x = (.ok (), x.setResponse (i.reply env.files)) := by
  obtain ⟨v, hv, hi⟩ := Option.map_eq_some_iff.1 h
  have hcontent : (v.resource env.files (nameOf folder x.request.servletPath x.request.pathInfo)).bind
      env.files.read? = i.content env.files := by
    rw [← hi]
    rfl
  simp only [service, hget, hv, hcontent, Exchange.setResponse, Inquiry.reply]
  rw [if_neg (by simp)]
  cases i.content env.files with
  | none => rfl
  | some content =>
    subst hi
    rfl

namespace Dispatch

/-- A resource that a request is pointed to looks up what its match leads to. -/
theorem invoke_eq_service (env : Surroundings) (h : s.inquiry pm = some i)
    (hd : s.element.details = .resource folder) (hservlet : x.request.servletPath = pm.servletPath)
    (hinfo : x.request.pathInfo = pm.pathInfo) :
    ∃ y, invoke env s x = Resource.service env folder y ∧ y.request.inquiry folder = some i ∧
      y.response = x.response ∧ y.request.method = x.request.method := by
  obtain ⟨folder', c, hd', hc, rfl⟩ := ActiveServlet.inquiry_eq_some_iff.1 h
  cases hd.symm.trans hd'
  refine ⟨x.setRequest fun q => { q with view := s.context.map fun c => ⟨c, s.element.owner⟩ }, ?_,
    ?_, rfl, rfl⟩
  · simp only [invoke, hd]
  · simp [Request.inquiry, Exchange.setRequest, hc, hservlet, hinfo]

/-- What a GET request to a resource is answered with. -/
theorem invoke_eq_reply (env : Surroundings) (h : s.inquiry pm = some i)
    (hget : x.request.method = "GET") (hservlet : x.request.servletPath = pm.servletPath)
    (hinfo : x.request.pathInfo = pm.pathInfo) :
    (invoke env s x).1 = .ok () ∧ (invoke env s x).2.response = i.reply env.files x.response := by
  obtain ⟨folder, _, hd, _⟩ := ActiveServlet.inquiry_eq_some_iff.1 h
  obtain ⟨y, hy, hinquiry, hresponse, hmethod⟩ := invoke_eq_service env h hd hservlet hinfo
  rw [hy, Resource.service_eq_reply env (hmethod.trans hget) hinquiry, ← hresponse]
  exact ⟨rfl, rfl⟩

end Dispatch

end ServletContainer
