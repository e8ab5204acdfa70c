import ServletContainer.Text.Cut

/-! Media types by file extension. -/
namespace ServletContainer.Mime

def known : List (String × String) := [
  ("html", "text/html"), ("htm", "text/html"), ("css", "text/css"), ("js", "text/javascript"),
  ("mjs", "text/javascript"), ("json", "application/json"), ("xml", "application/xml"),
  ("txt", "text/plain"), ("csv", "text/csv"), ("svg", "image/svg+xml"), ("png", "image/png"),
  ("jpg", "image/jpeg"), ("jpeg", "image/jpeg"), ("gif", "image/gif"), ("ico", "image/x-icon"),
  ("webp", "image/webp"), ("wasm", "application/wasm"), ("pdf", "application/pdf"),
  ("woff", "font/woff"), ("woff2", "font/woff2")]

def ofName (name : String) : Option String :=
  match Text.splitLast '.' name.toList with
  | none => none
  | some (_, ext) => known.lookup (String.ofList (ext.map Char.toLower))

end ServletContainer.Mime
