import ServletContainer.Deployment.Basic
import ServletContainer.Digest.Sha256
import ServletContainer.Json.Printer

/-! A picture of a deployment as data, with a fingerprint for comparing two of them. -/
namespace ServletContainer

open Json (nat strs)

def Json.fingerprint (v : Json) : String := Sha256.hex (Utf8.encode v.compact)

def pathTexts (ps : List ContextPath) : Json := strs (ps.map (·.text))

def Module.json (m : Module) : Json := .obj [("id", nat m.id), ("name", .str m.name)]

namespace Deployment

def physicalJson (path : ContextPath) (p : Physical) : Json :=
  .obj [("path", .str path.text), ("pinned", .bool p.pinned), ("contexts", strs p.bound)]

def contextJson (c : LogicalContext) : Json :=
  .obj [("id", .str c.id), ("path", .str c.path.text), ("rank", .int c.rank),
    ("order", nat c.order), ("owner", Json.option Module.json c.owner)]

def elementJson (d : Deployment) (s : Deployed) : Json :=
  let e := s.element
  .obj [("id", nat e.id), ("kind", .str e.kind.slug), ("name", .str e.name),
    ("patterns", strs e.patterns.texts), ("targets", strs e.targets), ("rank", .int e.rank),
    ("service_id", nat e.serviceId), ("dynamic", .bool e.dynamic),
    ("owner", Json.option Module.json e.owner), ("enabled_in", pathTexts s.enabledIn.elems),
    ("shadowed_in", pathTexts (d.shadowedIn s))]

def pictureWith (d : Deployment) (fingerprint : String) : Json :=
  .obj [("policy", .str d.policy.slug), ("default_context", .str d.defaultContext),
    ("physical_contexts", .arr (d.contexts.physical.entries.map fun (p, x) => physicalJson p x)),
    ("logical_contexts", .arr (d.contexts.logical.values.map contextJson)),
    ("elements", .arr (d.elements.values.map d.elementJson)),
    ("fingerprint", .str fingerprint)]

def fingerprint (d : Deployment) : String := (d.pictureWith "").fingerprint

def snapshot (d : Deployment) : Json := d.pictureWith d.fingerprint

end Deployment

end ServletContainer
