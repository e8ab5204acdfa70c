import ServletContainer.Context.Basic
import ServletContainer.Files
import ServletContainer.Mime

/-! What a context's helper knows about resources. A directory helper never leaves its directory:
a name with a `..` segment has no path. -/
namespace ServletContainer

open Text

namespace Helper

def belowBase (base : String) (name : String) : Option String :=
  let rel := dropStart (· == '/') name.toList
  if (splitAll '/' rel).contains ['.', '.'] then none
  else some (Files.join base (String.ofList rel))

def realPath (h : Helper) (name : String) : Option String :=
  match h with
  | .directory (some base) _ => belowBase base name
  | _ => none

/-- The path of a resource that exists. -/
def resource (h : Helper) (fs : Files) (module : Option Module) (name : String) : Option String :=
  match h with
  | .bare => none
  | .directory _ _ => (h.realPath name).filter fs.isFile
  | .scripted _ _ _ none =>
    let folder := Files.join fs.root ((module.map (·.name)).getD "_")
    let path := Files.join folder (String.ofList (dropStart (· == '/') name.toList))
    if fs.isFile path then some path else none
  | .scripted _ _ _ (some table) => (table.lookup (module, name)).filter fs.isFile

def mimeType (_ : Helper) (name : String) : Option String := Mime.ofName name

end Helper

namespace View

def resource (v : View) (fs : Files) (name : String) : Option String :=
  v.context.helper.resource fs v.module name

def realPath (v : View) (name : String) : Option String := v.context.helper.realPath name

def mimeType (v : View) (name : String) : Option String := v.context.helper.mimeType name

end View

end ServletContainer
