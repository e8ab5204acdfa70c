import ServletContainer.Config.Basic
import ServletContainer.Toml.Parser

/-! Reading configurations. A record may also be written as the list of its fields in order; a field
that it does not have is passed over, one that is written twice is an error. -/
namespace ServletContainer

/-- The formats of configuration files. -/
inductive Format where
  | json
  | toml
  deriving DecidableEq

abbrev Fields := String → Option Document

namespace Document

/-- The fields of a record with the given names. A JSON list must not be longer than the record. -/
def fields? (f : Format) (names : List String) : Document → Option Fields
  | .table es =>
    if names.any fun n => 1 < (es.filter (·.1 == n)).length then none
    else some fun n => es.lookup n
  | .list items =>
    if f = .json ∧ names.length < items.length then none
    else some fun n => (names.zip items).lookup n
  | _ => none

def text? : Document → Option String
  | .text s => some s
  | _ => none

def flag? : Document → Option Bool
  | .bool b => some b
  | _ => none

def integer? (low high : Int) : Document → Option Int
  | .int n => if low ≤ n ∧ n ≤ high then some n else none
  | _ => none

def rank? : Document → Option Int := integer? (-0x80000000) 0x7FFFFFFF

def listOf (read : Document → Option α) : Document → Option (List α)
  | .list items => items.mapM read
  | _ => none

def texts? : Document → Option (List String) := listOf text?

def textMap? : Document → Option (OrdMap String String)
  | .table es => (es.mapM fun e => (text? e.2).map (e.1, ·)).map OrdMap.ofList
  | _ => none

def nullable (read : Document → Option α) : Document → Option (Option α)
  | .null => some none
  | d => (read d).map some

def isVoid : Format → Document → Bool
  | .json, .null => true
  | .toml, .list [] => true
  | .toml, .table [] => true
  | _, _ => false

end Document

namespace Fields

open Document

def need (fs : Fields) (name : String) (read : Document → Option α) : Option α := (fs name).bind read

def get (fs : Fields) (name : String) (read : Document → Option α) (default : α) : Option α :=
  match fs name with
  | none => some default
  | some d => read d

end Fields

open Document

def Policy.ofSlug? : String → Option Policy
  | "strict" => some .strict
  | "per_context" => some .perContext
  | _ => none

/-- A policy: its name, or a table with its name as the only key and nothing below. -/
def Policy.read? (f : Format) : Document → Option Policy
  | .text s => ofSlug? s
  | .table [(s, d)] => if isVoid f d then ofSlug? s else none
  | _ => none

def EngineSettings.read? (f : Format) (d : Document) : Option EngineSettings := do
  let fs ← d.fields? f ["name", "properties"]
  return {
    name := ← fs.get "name" text? "in-process"
    properties := ← fs.get "properties" textMap? ∅ }

def ServerConfig.read? (f : Format) (d : Document) : Option ServerConfig := do
  let fs ← d.fields? f ["arbitration", "default_context", "default_context_path", "engine"]
  return {
    arbitration := ← fs.get "arbitration" (Policy.read? f) .strict
    defaultContext := ← fs.get "default_context" text? "default"
    defaultContextPath := ← fs.get "default_context_path" text? "/"
    engine := ← fs.get "engine" (EngineSettings.read? f) {} }

def SessionSettings.read? (f : Format) (d : Document) : Option SessionSettings := do
  let fs ← d.fields? f ["timeout_minutes", "cookie_name"]
  return {
    timeoutMinutes := (← fs.get "timeout_minutes" (integer? 0 0xFFFFFFFF) 30).toNat
    cookieName := ← fs.get "cookie_name" text? "JSESSIONID" }

def HeaderRule.read? (f : Format) (d : Document) : Option HeaderRule := do
  let fs ← d.fields? f ["name", "value"]
  return { name := ← fs.need "name" text?, value := ← fs.get "value" (nullable text?) none }

def ContextDecl.read? (f : Format) (d : Document) : Option ContextDecl := do
  let fs ← d.fields? f
    ["name", "path", "rank", "init_params", "resource_base", "session", "required_header"]
  return {
    name := ← fs.need "name" text?
    path := ← fs.need "path" text?
    rank := ← fs.get "rank" rank? 0
    init := ← fs.get "init_params" textMap? ∅
    base := ← fs.get "resource_base" (nullable text?) none
    session := ← fs.get "session" (SessionSettings.read? f) {}
    header := ← fs.get "required_header" (nullable (HeaderRule.read? f)) none }

namespace ElementDecl

def common? (fs : Fields) (body : Option Body) : Option ElementDecl := do
  return {
    name := ← fs.need "name" text?
    contexts := ← fs.get "contexts" texts? []
    rank := ← fs.get "rank" rank? 0
    body := ← body }

def servlet? (f : Format) (d : Document) : Option ElementDecl := do
  let fs ← d.fields? f
    ["name", "class", "url_patterns", "regex_patterns", "contexts", "rank", "init_params"]
  common? fs do
    return .servlet (← fs.need "class" text?) (← fs.get "url_patterns" texts? [])
      (← fs.get "regex_patterns" texts? []) (← fs.get "init_params" textMap? ∅)

def filter? (f : Format) (d : Document) : Option ElementDecl := do
  let fs ← d.fields? f
    ["name", "class", "url_patterns", "regex_patterns", "servlet_names", "preprocessor", "contexts",
      "rank", "init_params"]
  common? fs do
    return .filter (← fs.need "class" text?) (← fs.get "url_patterns" texts? [])
      (← fs.get "regex_patterns" texts? []) (← fs.get "servlet_names" texts? [])
      (← fs.get "preprocessor" flag? false) (← fs.get "init_params" textMap? ∅)

def listener? (f : Format) (d : Document) : Option ElementDecl := do
  let fs ← d.fields? f ["name", "class", "contexts", "rank"]
  common? fs do return .listener (← fs.need "class" text?)

def resource? (f : Format) (d : Document) : Option ElementDecl := do
  let fs ← d.fields? f ["name", "url_patterns", "prefix", "contexts", "rank"]
  common? fs do
    return .resource (← fs.need "url_patterns" texts?) (← fs.get "prefix" text? "")

def welcomeFile? (f : Format) (d : Document) : Option ElementDecl := do
  let fs ← d.fields? f ["name", "files", "redirect", "contexts", "rank"]
  common? fs do return .welcomeFile (← fs.need "files" texts?) (← fs.get "redirect" flag? false)

def errorPage? (f : Format) (d : Document) : Option ElementDecl := do
  let fs ← d.fields? f ["name", "errors", "location", "contexts", "rank"]
  common? fs do return .errorPage (← fs.need "errors" texts?) (← fs.need "location" text?)

end ElementDecl

namespace Config

def read? (f : Format) (d : Document) : Option Config := do
  let fs ← d.fields? f
    ["server", "inspect", "contexts", "servlets", "filters", "listeners", "resources",
      "welcome_files", "error_pages"]
  let section? := fun (name : String) (read : Format → Document → Option ElementDecl) =>
    fs.get name (listOf (read f)) []
  return {
    server := ← fs.get "server" (ServerConfig.read? f) {}
    inspect := ← fs.get "inspect" (nullable text?) none
    contexts := ← fs.get "contexts" (listOf (ContextDecl.read? f)) []
    elements :=
      (← section? "servlets" ElementDecl.servlet?) ++ (← section? "filters" ElementDecl.filter?) ++
      (← section? "listeners" ElementDecl.listener?) ++
      (← section? "resources" ElementDecl.resource?) ++
      (← section? "welcome_files" ElementDecl.welcomeFile?) ++
      (← section? "error_pages" ElementDecl.errorPage?) }

/-- A file whose first visible character is a brace holds JSON. -/
def formatOf (content : Bytes) : Format :=
  match content.dropWhile fun b => b == 32 || b == 13 || b == 10 || b == 9 with
  | 123 :: _ => .json
  | _ => .toml

/-- The document that a file holds. JSON has to be UTF-8; in TOML, bytes that are not are
replaced. -/
def document? (content : Bytes) : Format → Option Document
  | .json => (Utf8.decode? content).bind fun s => (Json.parse? s).map Document.ofJson
  | .toml => Toml.parse? (Utf8.decodeLossy content)

def parse (content : Bytes) : Except ConfigError Config :=
  let f := formatOf content
  match (document? content f).bind (read? f) with
  | some c => .ok c
  | none => .error .parse

end Config

end ServletContainer
