import ServletContainer.Context.Helper
import ServletContainer.Element.Source
import ServletContainer.Http.Message

/-! Running collaborators on a request. Whatever a collaborator does before it fails or panics
stays done: a step gives its outcome together with the exchange as it left it. -/
namespace ServletContainer

/-- What a request is being answered with. -/
inductive Outcome where
  /-- A servlet or a filter chain ran. -/
  | serviced
  /-- No mount contains the path, or nothing applies to it. -/
  | notFound
  /-- The context's security turned the request away. -/
  | forbidden
  deriving DecidableEq

/-- A call of a collaborator. -/
inductive Call where
  | preprocessor (id : ElementId)
  | security
  | filter (id : ElementId)
  | target
  | finish
  | errorPage (id : ElementId)
  deriving DecidableEq

/-- A request under way, and what it has done so far. -/
structure Exchange where
  request : Request
  response : Response := {}
  pool : Pool := {}
  log : List String := []
  /-- The calls so far, each with the request that was handed over. -/
  trace : List (Call × Request) := []
  outcome : Outcome := .notFound

/-- Why a step did not return normally. -/
inductive Fault where
  | failed (e : ServletError)
  | panicked (message : String)
  deriving DecidableEq

def Fault.error : Fault → ServletError
  | .failed e => e
  | .panicked m => ⟨some "panic", m⟩

abbrev Handler := Exchange → Except Fault Unit × Exchange

namespace Exchange

def setRequest (x : Exchange) (f : Request → Request) : Exchange :=
  { x with request := f x.request }

def setResponse (x : Exchange) (f : Response → Response) : Exchange :=
  { x with response := f x.response }

def write (x : Exchange) (text : String) : Exchange := x.setResponse (·.writeText text)

def note (x : Exchange) (line : String) : Exchange := { x with log := x.log ++ [line] }

def calls (x : Exchange) : List Call := x.trace.map (·.1)

def called (x : Exchange) (c : Call) : Exchange := { x with trace := x.trace ++ [(c, x.request)] }

@[simp] theorem calls_called (x : Exchange) (c : Call) : (x.called c).calls = x.calls ++ [c] := by
  simp [called, calls]

end Exchange

namespace Handler

/-- Notes a call before the step that makes it. -/
def calling (c : Call) (h : Handler) : Handler := fun x => h (x.called c)

def pass : Handler := fun x => (.ok (), x)

/-- Does `g` after `h`, unless `h` fails. -/
def andThen (h g : Handler) : Handler := fun x =>
  match h x with
  | (.ok _, y) => g y
  | (.error f, y) => (.error f, y)

end Handler

/-- What collaborators can ask for besides the exchange: files, and the state of the server as
text, or what one path leads to. -/
structure Surroundings where
  files : Files
  inspect : Option String → String

def View.text (v : View) : String :=
  v.context.id ++ "@" ++ v.context.path.text ++ " module=" ++ (v.module.map Module.label).getD "-"
    ++ " init=" ++ Text.quotedEntries v.context.init.entries ++ " session="
    ++ toString v.context.session.timeoutMinutes ++ "/" ++ v.context.session.cookieName

/-- The text that a reading writes; `number` is that of the instance that runs, `remaining` the
filters that follow. -/
def Reading.text (env : Surroundings) (x : Exchange) (number : Nat) (remaining : Option Nat)
    (r : Reading) : String :=
  let q := x.request
  let view := fun (f : View → Option String) => ((q.view.bind f).map env.files.shown).getD "-"
  match r with
  | .attribute k => (q.attributes.find? k).getD "-"
  | .header n => ((q.headers.get? n).map Utf8.decodeLossy).getD "-"
  | .method => q.method
  | .path => q.uri.path
  | .query => q.uri.query.getD "-"
  | .body => Utf8.decodeLossy q.body
  | .paths =>
    "|".intercalate [q.contextPath, q.servletPath, q.pathInfo.getD "-", q.pathInContext]
  | .view => (q.view.map View.text).getD "-"
  | .resource n => view fun v => v.resource env.files n
  | .realPath n => view fun v => v.realPath n
  | .mime n => ((q.view.bind fun v => v.mimeType n)).getD "-"
  | .instanceNumber => toString number
  | .remaining => (remaining.map toString).getD "-"

namespace Script

def act (env : Surroundings) (number : Nat) (remaining : Option Nat) (x : Exchange) :
    Action → Exchange
  | .write t => x.write t
  | .tell r => x.write (r.text env x number remaining)
  | .status n => x.setResponse fun r => { r with status := n }
  | .sendError n => x.setResponse (·.sendError n)
  | .redirect l => x.setResponse (·.sendRedirect l)
  | .resetBody => x.setResponse fun r => { r with body := [] }
  | .header n v =>
    if isToken n && isHeaderValue (Utf8.encode v) then x.setResponse (·.setHeader n v) else x
  | .requestHeader n v =>
    if isToken n && isHeaderValue (Utf8.encode v) then
      x.setRequest fun q => { q with headers := q.headers.put n (Utf8.encode v) }
    else x
  | .setAttribute k v =>
    x.setRequest fun q => { q with attributes := q.attributes.insert k v }
  | .log t => x.note t
  | .logStatus => x.note (toString x.response.status ++ " " ++ toString x.response.body.length)
  | .proceed => x
  | .proceedCatch => x
  | .fail .. => x
  | .panic _ => x

/-- Runs a script. `next` is the rest of the chain and the number of filters in it; it can be
passed the request once. -/
def run (env : Surroundings) (number : Nat) : Option (Nat × Handler) → Script → Handler
  | _, [] => .pass
  | next, a :: as => fun x =>
    match a, next with
    | .fail k m, _ => (.error (.failed ⟨k, m⟩), x)
    | .panic m, _ => (.error (.panicked m), x)
    | .proceed, some (_, h) => h.andThen (run env number none as) x
    | .proceedCatch, some (_, h) =>
      match h x with
      | (.ok _, y) => run env number none as y
      | (.error (.failed e), y) =>
        run env number none as (y.write ("caught " ++ e.kind.getD "-" ++ ": " ++ e.message))
      | (.error (.panicked m), y) => (.error (.panicked m), y)
    | a, next => run env number next as (act env number (next.map (·.1)) x a)

end Script

def Request.echo (q : Request) : String :=
  let lines := ["method: " ++ q.method, "path: " ++ q.uri.path, "context_path: " ++ q.contextPath,
    "servlet_path: " ++ q.servletPath, "path_info: " ++ q.pathInfo.getD ""] ++
    (q.view.map fun v => "context: " ++ v.context.id).toList
  String.join (lines.map (· ++ "\n"))

namespace Servlet

/-- Answers with the state of the server; a query `path=` asks where that path leads. -/
def inspection (env : Surroundings) : Handler := fun x =>
  let q := x.request
  if q.method ≠ "GET" then (.ok (), x.setResponse (·.sendError 405))
  else
    let path := (q.uri.query.map String.toList).bind (Text.cutStart "path=".toList)
    let body := env.inspect (path.map String.ofList)
    (.ok (), (x.setResponse (·.setHeader "content-type" "application/json")).write body)

def service (env : Surroundings) (s : Instance Servlet) : Handler :=
  match s.behaviour with
  | .script as => Script.run env s.number none as
  | .echo => fun x =>
    (.ok (), (x.setResponse (·.setHeader "content-type" "text/plain; charset=utf-8")).write
      x.request.echo)
  | .inspect => inspection env

end Servlet

namespace Filter

abbrev Chain := List (Call × Instance Filter)

def handle (env : Surroundings) (f : Instance Filter) (remaining : Nat) (next : Handler) :
    Handler :=
  match f.behaviour with
  | .script as => Script.run env f.number (some (remaining, next)) as
  | .accessLog => next

/-- Runs filters one inside the other, around the last handler; each is noted as a call. -/
def chain (env : Surroundings) : Chain → Handler → Handler
  | [], last => last
  | (c, f) :: fs, last => Handler.calling c (handle env f fs.length (chain env fs last))

end Filter

namespace Resource

/-- The name that is looked up: the folder, then the path within the resource. -/
def nameOf (folder servletPath : String) (pathInfo : Option String) : String :=
  folder ++ pathInfo.getD servletPath

def service (env : Surroundings) (folder : String) : Handler := fun x =>
  let q := x.request
  if q.method ≠ "GET" ∧ q.method ≠ "HEAD" then
    (.ok (), x.setResponse fun r => (r.sendError 405).setHeader "allow" "GET, HEAD")
  else
    let name := nameOf folder q.servletPath q.pathInfo
    match q.view with
    | none => (.ok (), x.setResponse (·.sendError 404))
    | some v =>
      match (v.resource env.files name).bind env.files.read? with
      | none => (.ok (), x.setResponse (·.sendError 404))
      | some content =>
        (.ok (), x.setResponse fun r =>
          let r := match v.mimeType name with
            | some m => r.setHeader "content-type" m
            | none => r
          let r := r.setHeader "content-length" (toString content.length)
          if q.method = "HEAD" then r else r.write content)

end Resource

namespace Helper

def satisfies (rule : HeaderRule) (q : Request) : Bool :=
  match q.headers.get? rule.name, rule.value with
  | none, _ => false
  | some _, none => true
  | some found, some expected => found == Utf8.encode expected

def handleSecurity (env : Surroundings) (h : Helper) (x : Exchange) :
    Except Fault Bool × Exchange :=
  match h with
  | .bare => (.ok true, x)
  | .directory _ none => (.ok true, x)
  | .directory _ (some rule) =>
    if satisfies rule x.request then (.ok true, x)
    else (.ok false, x.setResponse fun r => { r with status := 403 })
  | .scripted allow security .. =>
    match Script.run env 0 none security x with
    | (.error (.panicked m), y) => (.error (.panicked m), y)
    | (_, y) => (.ok allow, y)

/-- Called once after security, whatever happened in between; it cannot change the response. -/
def finishSecurity (env : Surroundings) (h : Helper) : Handler := fun x =>
  match h with
  | .scripted _ _ finish _ =>
    let restore := fun (y : Exchange) => { y with response := x.response }
    match Script.run env 0 none finish { x with response := {} } with
    | (.error (.panicked m), y) => (.error (.panicked m), restore y)
    | (_, y) => (.ok (), restore y)
  | _ => (.ok (), x)

end Helper

end ServletContainer
