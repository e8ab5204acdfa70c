import ServletContainer.Element.Basic
import ServletContainer.Json.Basic

/-! Elements described as data. -/
namespace ServletContainer

open Json (nat strs)

def Json.ofTexts (m : OrdMap String String) : Json := .obj (m.entries.map fun e => (e.1, .str e.2))

def ErrorKey.json : ErrorKey → Json
  | .code n => .obj [("code", nat n)]
  | .clientErrors => .str "client_errors"
  | .serverErrors => .str "server_errors"
  | .exception k => .obj [("exception", .str k)]

def Details.json : Details → Json
  | .servlet s => .obj [("source", .str s.description)]
  | .filter s names p =>
    .obj [("source", .str s.description), ("servlet_names", strs names), ("preprocessor", .bool p)]
  | .listener s => .obj [("source", .str s.description)]
  | .resource folder => .obj [("prefix", .str folder)]
  | .errorPage errors location =>
    .obj [("errors", .arr (errors.map ErrorKey.json)), ("location", .str location)]
  | .welcomeFile files redirect => .obj [("files", strs files), ("redirect", .bool redirect)]

def Element.json (e : Element) : Json :=
  .obj [("id", nat e.id), ("display", .str e.label), ("kind", .str e.kind.slug),
    ("name", .str e.name), ("patterns", strs e.patterns.texts), ("targets", strs e.targets),
    ("rank", .int e.rank), ("service_id", nat e.serviceId), ("dynamic", .bool e.dynamic),
    ("owner", .optStr (e.owner.map Module.label)), ("init", .ofTexts e.init),
    ("class", .optStr e.className), ("is_preprocessor", .bool e.isPreprocessor),
    ("details", e.details.json)]

end ServletContainer
