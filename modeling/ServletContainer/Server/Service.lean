import ServletContainer.Deployment.Snapshot
import ServletContainer.Dispatch.Execute
import ServletContainer.Element.Description
import ServletContainer.Server.Basic

/-! Requests served by a server, against the routing table of what is deployed at that moment. -/
namespace ServletContainer

def ServerConfig.json (c : ServerConfig) : Json :=
  .obj [("arbitration", .str c.arbitration.slug), ("default_context", .str c.defaultContext),
    ("default_context_path", .str c.defaultContextPath),
    ("engine", .obj [("name", .str c.engine.name), ("properties", .ofTexts c.engine.properties)])]

namespace Server

def table (s : Server) : Table := s.deployment.table

/-- What collaborators see around a request: files, and the deployment or the plan for a path as
indented data. -/
def surroundings (s : Server) (fs : Files) : Surroundings where
  files := fs
  inspect
    | some path => (s.table.info fs path).pretty
    | none => s.deployment.snapshot.pretty

def dispatch (s : Server) (fs : Files) (q : Incoming) :
    Except DispatchError Unit × Exchange × Server :=
  let (r, x) := Dispatch.execute (s.surroundings fs) s.table q s.pool
  (r, x, { s with pool := x.pool })

def internalError : Response :=
  (({ status := 500 } : Response).setHeader "content-type" "text/plain; charset=utf-8").writeText
    "Internal Server Error"

def answer (s : Server) (fs : Files) (q : Incoming) : Response × Exchange × Server :=
  match s.dispatch fs q with
  | (.ok _, x, s) => (x.response, x, s)
  | (.error _, x, s) => (internalError, x, s)

end Server

end ServletContainer
