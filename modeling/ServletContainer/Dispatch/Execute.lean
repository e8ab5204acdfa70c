import ServletContainer.Dispatch.Plan

/-! Running a request: preprocessors, then security around the filters and the target, then perhaps
an error page. After security was entered it is always finished, whatever happened in between. -/
namespace ServletContainer

def Pool.chain (p : Pool) (call : ElementId → Call) :
    List Element → Except DispatchError Filter.Chain × Pool
  | [] => (.ok [], p)
  | e :: es =>
    match e.details with
    | .filter source _ _ =>
      match p.filter e.id source with
      | (.error err, p) => (.error err, p)
      | (.ok i, p) =>
        let (rest, p) := p.chain call es
        (rest.map ((call e.id, i) :: ·), p)
    | _ => p.chain call es

namespace Dispatch

def invoke (env : Surroundings) (s : ActiveServlet) : Handler := fun x =>
  let e := s.element
  let x := x.setRequest fun q => { q with view := s.context.map fun c => ⟨c, e.owner⟩ }
  match e.details with
  | .servlet source =>
    match x.pool.servlet e.id source with
    | (.ok i, pool) => Servlet.service env i { x with pool := pool }
    | (.error err, pool) =>
      (.error (.failed ⟨some "instantiation", err.message⟩), { x with pool := pool })
  | .resource folder => Resource.service env folder x
  | _ => (.error (.failed ⟨none, e.label ++ " cannot service requests"⟩), x)

def Plan.aim (p : Plan) (m : PatternMatch) (x : Exchange) : Exchange :=
  x.setRequest (·.setPaths p.mount.path.lead m.servletPath m.pathInfo)

def runTarget (env : Surroundings) (p : Plan) : Handler := fun x =>
  match p.target with
  | .servlet s m => invoke env s ((Plan.aim p m x).called .target)
  | .redirect l => (.ok (), (x.called .target).setResponse (·.sendRedirect l))
  | .nothing => (.ok (), (x.called .target).setResponse (·.sendError 404))

/-- Security, and what it protects; `true` unless security turned the request away. -/
def guarded (env : Surroundings) (p : Plan) (filters : Filter.Chain) (x : Exchange) :
    Except Fault Bool × Exchange :=
  let inside : Exchange → Except Fault Bool × Exchange := fun x =>
    let (r, y) := Filter.chain env filters (runTarget env p) x
    (r.map fun _ => true, y)
  match p.view with
  | none => inside x
  | some c =>
    match c.helper.handleSecurity env (x.called .security) with
    | (.ok true, y) => inside y
    | rejected => rejected

def finish (env : Surroundings) (p : Plan) : Handler :=
  match p.view with
  | none => .pass
  | some c => Handler.calling .finish (c.helper.finishSecurity env)

def conclude (r : Except Fault Bool) : Handler := fun x =>
  match r with
  | .ok true => (.ok (), { x with outcome := .serviced })
  | .ok false =>
    let status := x.response.status
    let x := if 400 ≤ status ∧ status ≤ 499 then x else x.setResponse (·.sendError 403)
    (.ok (), { x with outcome := .forbidden })
  | .error f => (.error (.failed f.error), { x with outcome := .serviced })

def runSecured (env : Surroundings) (p : Plan) (filters : Filter.Chain) : Handler := fun x =>
  if p.isEmpty then (.ok (), { x.setResponse (·.sendError 404) with outcome := .notFound })
  else
    let (r, y) := guarded env p filters x
    (finish env p).andThen (conclude r) y

/-- The status that asks for an error page: that of a failure, or an error without a body. -/
def errorStatus (failure : Option ServletError) (r : Response) : Option Nat :=
  match failure with
  | some _ => some 500
  | none => if 400 ≤ r.status ∧ r.body = [] then some r.status else none

def errorPage (p : Plan) (failure : Option ServletError) (status : Nat) :
    Option (ActiveServlet × PatternMatch) :=
  (p.mount.errorPage (failure.bind (·.kind)) status).bind p.mount.select

/-- How a failure that no error page takes is reported. -/
def report (failure : Option ServletError) : Except DispatchError Unit :=
  match failure with
  | none => .ok ()
  | some e => if e.kind = some "panic" then .error (.panic e.message) else .error (.servlet e)

/-- Serves an error page. Its status is that of the error, whatever the page sets. -/
def forward (env : Surroundings) (p : Plan) (failure : Option ServletError) (status : Nat)
    (page : ActiveServlet × PatternMatch) (x : Exchange) : Except DispatchError Unit × Exchange :=
  let attributes := fun (q : Request) =>
    let as := q.attributes.insert "webboard.error.status_code" (toString status)
    match failure with
    | some e => as.insert "webboard.error.message" e.message
    | none => as
  let x := Plan.aim p page.2 (x.setRequest fun q => { q with attributes := attributes q })
  let x := (x.setResponse (·.sendError status)).called (.errorPage page.1.element.id)
  match invoke env page.1 x with
  | (.ok _, y) => (.ok (), y.setResponse fun r => { r with status := status })
  | (.error (.failed e), y) => (.error (.servlet e), y)
  | (.error (.panicked m), y) => (.error (.panic m), y)

def handleErrors (env : Surroundings) (p : Plan) (failure : Option ServletError) (x : Exchange) :
    Except DispatchError Unit × Exchange :=
  match errorStatus failure x.response with
  | none => (.ok (), x)
  | some status =>
    match errorPage p failure status with
    | none => (report failure, x)
    | some page => forward env p failure status page x

def runPlan (env : Surroundings) (p : Plan) (x : Exchange) : Except DispatchError Unit × Exchange :=
  let x := x.setRequest fun q =>
    { q.setPaths p.mount.path.lead p.relative none with view := p.view.map fun c => ⟨c, none⟩ }
  match x.pool.chain .preprocessor p.preprocessors with
  | (.error e, pool) => (.error e, { x with pool := pool })
  | (.ok preprocessors, pool) =>
    match pool.chain .filter p.filters with
    | (.error e, pool) => (.error e, { x with pool := pool })
    | (.ok filters, pool) =>
      let x := { x with pool := pool }
      match Filter.chain env preprocessors (runSecured env p filters) x with
      | (.ok _, y) => handleErrors env p none y
      | (.error f, y) => handleErrors env p (some f.error) y

def execute (env : Surroundings) (t : Table) (request : Incoming) (pool : Pool) :
    Except DispatchError Unit × Exchange :=
  let x : Exchange := { request := { toIncoming := request }, pool := pool }
  match t.compose env.files request.uri.path with
  | none => (.ok (), x.setResponse (·.sendError 404))
  | some p => runPlan env p x

end Dispatch

end ServletContainer
