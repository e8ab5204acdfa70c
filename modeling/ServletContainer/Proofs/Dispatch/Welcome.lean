import ServletContainer.Proofs.Dispatch.Inquiry
import ServletContainer.Proofs.Dispatch.Passing
import ServletContainer.Proofs.Dispatch.Resource
import ServletContainer.Proofs.Dispatch.Selection

/-! Welcome files. A path that names a directory is answered by the first welcome file that can be used
(`Mount.target_eq`). The path of a welcome file leads to what was found there, unless it names a directory
itself (`Mount.target_of_welcomed`); then another welcome file may be found for it, which takes a helper that
has a resource for a path that ends with a slash (`Mount.isPrecise_of_isUsable`). -/
namespace ServletContainer

open Files

/-- A welcome file that can be used: its path below the mount, whether requests are redirected there, and
what answers them there. -/
structure Welcome where
  path : String
  redirected : Bool
  servlet : ActiveServlet
  found : PatternMatch
  deriving DecidableEq

def PatternMatch.isPrecise (pm : PatternMatch) : Bool := pm.kind == .exact || pm.kind == .extension

namespace Mount

variable {fs : Files} {m : Mount} {directory relative path : String} {name : String × Bool} {w : Welcome}
  {s : ActiveServlet} {pm : PatternMatch}

def usable (fs : Files) (m : Mount) (directory : String) (name : String × Bool) : Option Welcome :=
  ((m.select (directory ++ name.1)).filter fun (s, pm) => isUsable fs s pm).map fun (s, pm) =>
    ⟨directory ++ name.1, name.2, s, pm⟩

def directoryOf (relative : String) : String :=
  if relative.toList.getLast? = some '/' then relative else relative ++ "/"

/-- The welcome file that answers for a path below the mount. -/
def welcomed (fs : Files) (m : Mount) (relative : String) : Option Welcome :=
  if (relative = "" ∨ relative.toList.getLast? = some '/') ∧
      ¬ (m.select relative).any fun (_, pm) => pm.isPrecise then
    m.welcomeNames.findSome? (m.usable fs (directoryOf relative))
  else none

def welcomeTarget (m : Mount) (w : Welcome) : Target :=
  if w.redirected then .redirect (m.path.lead ++ w.path) else .servlet w.servlet w.found

def direct (m : Mount) (relative : String) : Target :=
  (m.select relative).elim .nothing fun (s, pm) => .servlet s pm

theorem usable_eq_some_iff : m.usable fs directory name = some w ↔
    w.path = directory ++ name.1 ∧ w.redirected = name.2 ∧ m.select w.path = some (w.servlet, w.found) ∧
      isUsable fs w.servlet w.found := by
  simp only [usable, Option.map_eq_some_iff, Option.filter_eq_some_iff]
  constructor
  · rintro ⟨⟨s, pm⟩, ⟨hselect, husable⟩, rfl⟩
    exact ⟨rfl, rfl, hselect, husable⟩
  · obtain ⟨path, redirected, s, pm⟩ := w
    rintro ⟨rfl, rfl, hselect, husable⟩
    exact ⟨(s, pm), ⟨hselect, husable⟩, rfl⟩

theorem welcomeFor_eq (fs : Files) (m : Mount) (directory : String) (name : String × Bool) :
    m.welcomeFor fs directory name = (m.usable fs directory name).map m.welcomeTarget := by
  simp only [welcomeFor, usable]
  split
  · rename_i hnone
    rw [hnone]
    rfl
  · rename_i s pm hsome
    rw [hsome]
    by_cases h : isUsable fs s pm <;> simp [h, welcomeTarget]

theorem welcome_eq (fs : Files) (m : Mount) (relative : String) : m.welcome fs relative =
    (m.welcomeNames.findSome? (m.usable fs (directoryOf relative))).map m.welcomeTarget := by
  rw [welcome, List.map_findSome?]
  exact congrArg (m.welcomeNames.findSome? ·) (funext (m.welcomeFor_eq fs (directoryOf relative)))

/-- A path below the mount has the target of its welcome file, or else that of its own. -/
theorem target_eq (fs : Files) (m : Mount) (relative : String) :
    m.target fs relative = ((m.welcomed fs relative).map m.welcomeTarget).getD (m.direct relative) := by
  cases h : m.select relative with
  | none =>
    simp only [target, welcomed, direct, welcome_eq, h, Option.any_none, Option.elim_none,
      Bool.not_eq_true', Bool.not_eq_true]
    split <;> rfl
  | some found =>
    simp only [target, welcomed, direct, welcome_eq, h, Option.any_some, Option.elim_some,
      PatternMatch.isPrecise, Bool.not_eq_true', Bool.not_eq_true]
    split <;> rfl

theorem usable_of_welcomed (h : m.welcomed fs relative = some w) :
    NamesDirectory relative ∧ ∃ name, m.usable fs (directoryOf relative) name = some w := by
  unfold welcomed at h
  split at h
  · rename_i hdirectory
    obtain ⟨name, _, hname⟩ := List.exists_of_findSome?_eq_some h
    exact ⟨hdirectory.1, name, hname⟩
  · cases h

theorem select_of_welcomed (h : m.welcomed fs relative = some w) :
    m.select w.path = some (w.servlet, w.found) ∧ isUsable fs w.servlet w.found := by
  obtain ⟨_, _, h⟩ := usable_of_welcomed h
  exact (usable_eq_some_iff.1 h).2.2

theorem head?_of_welcomed (hrelative : Continues relative) (h : m.welcomed fs relative = some w) :
    w.path.toList.head? = some '/' := by
  obtain ⟨_, name, h⟩ := usable_of_welcomed h
  have hdirectory : (directoryOf relative).toList.head? = some '/' := by
    unfold directoryOf
    obtain rfl | ⟨rest, rfl⟩ := hrelative.eq
    · rfl
    · split <;> simp
  rw [(usable_eq_some_iff.1 h).1, String.toList_append, List.head?_append, hdirectory]
  rfl

end Mount

theorem PatternMatch.getLast?_rest {ps : Patterns} {path : String} {pm : PatternMatch}
    (h : ps.bestMatch path = some pm) (hlast : path.toList.getLast? = some '/') :
    pm.rest.toList.getLast? = some '/' := by
  rcases Patterns.bestMatch_eq_some h with ⟨u, _, hu, _⟩ | ⟨rfl, _⟩
  · cases UrlPattern.matches?_eq_some_iff.1 hu with
    | mount => rfl
    | @subtree top rest hpath =>
      by_cases hrest : rest = ""
      · simpa [PatternMatch.rest, hrest, hpath] using hlast
      · have hsuffix : rest.toList <:+ path.toList := ⟨top.toList, by rw [hpath, String.toList_append]⟩
        rw [PatternMatch.rest, if_neg hrest, Option.getD_some]
        exact (NamesDirectory.of_suffix (.inr hlast) hsuffix).resolve_left hrest
    | _ => exact hlast
  · exact hlast

namespace Mount

variable {fs : Files} {m : Mount} {relative path : String} {w : Welcome} {s : ActiveServlet}
  {pm : PatternMatch}

/-- What is usable at a path that ends with a slash is a precise match, if the helper that is asked has no
resource for such a path. -/
theorem isPrecise_of_isUsable (hselect : m.select path = some (s, pm)) (husable : isUsable fs s pm)
    (hspares : ∀ c, s.context = some c → c.helper.SparesDirectories fs s.element.owner)
    (hlast : path.toList.getLast? = some '/') : pm.isPrecise := by
  cases hd : s.element.details with
  | resource folder =>
    rw [isUsable_eq hd, Option.any_eq_true] at husable
    obtain ⟨i, hi, hanswer⟩ := husable
    obtain ⟨_, c, hd', hc, rfl⟩ := ActiveServlet.inquiry_eq_some_iff.1 hi
    have hrest : pm.rest.toList.getLast? = some '/' :=
      PatternMatch.getLast?_rest (select_eq_some hselect).2 hlast
    have hname : (Resource.nameOf folder pm.servletPath pm.pathInfo).toList.getLast? = some '/' := by
      have hne : pm.rest.toList ≠ [] := fun hempty => by simp [hempty] at hrest
      have hname : (folder ++ pm.rest).toList.getLast? = pm.rest.toList.getLast? := by
        rw [String.toList_append, List.getLast?_append_of_ne_nil _ hne]
      exact hname.trans hrest
    rw [Inquiry.answer] at hanswer
    cases hd.symm.trans hd'
    rw [hspares c hc _ hname] at hanswer
    cases hanswer
  | _ =>
    simp only [isUsable, hd] at husable
    exact husable

/-- A path that a welcome file is found at is answered by what was found, unless a welcome file is found for
this path too. -/
theorem target_path_of_welcomed (h : m.welcomed fs relative = some w) :
    m.target fs w.path = ((m.welcomed fs w.path).map m.welcomeTarget).getD (.servlet w.servlet w.found) := by
  rw [target_eq, direct, (select_of_welcomed h).1]
  rfl

theorem welcomed_path_eq_none (hrelative : Continues relative) (h : m.welcomed fs relative = some w)
    (hprecise : w.path.toList.getLast? = some '/' → w.found.isPrecise) : m.welcomed fs w.path = none := by
  refine if_neg ?_
  rintro ⟨hempty | hlast, hno⟩
  · have hhead := head?_of_welcomed hrelative h
    rw [hempty] at hhead
    cases hhead
  · exact hno (by rw [(select_of_welcomed h).1]; exact hprecise hlast)

theorem target_of_welcomed (hrelative : Continues relative) (h : m.welcomed fs relative = some w)
    (hprecise : w.path.toList.getLast? = some '/' → w.found.isPrecise) :
    m.target fs w.path = .servlet w.servlet w.found := by
  rw [target_path_of_welcomed h, welcomed_path_eq_none hrelative h hprecise]
  rfl

end Mount

theorem ContextPath.contains_lead {p : ContextPath} {relative : String}
    (h : relative.toList.head? = some '/') : p.Contains (p.lead ++ relative) := by
  by_cases hp : p = .root
  · subst hp
    rw [lead_root, String.empty_append]
    exact contains_root.2 h
  · rw [lead_of_ne hp]
    exact (contains_of_ne hp).2 ⟨relative, rfl, .inr h⟩

/-- A path below a mount is found in this mount, if no longer mount path contains it. -/
theorem Deployment.compose_lead {d : Deployment} {fs : Files} {m : Mount} {relative : String}
    (hm : m ∈ d.table.mounts) (h : relative.toList.head? = some '/')
    (hlongest : ∀ n ∈ d.table.mounts, n.path.Contains (m.path.lead ++ relative) →
      n.path.text.utf8ByteSize ≤ m.path.text.utf8ByteSize) :
    d.table.compose fs (m.path.lead ++ relative) = some (Plan.inMount fs d.table m relative) := by
  have hcontains : m.path.Contains (m.path.lead ++ relative) := ContextPath.contains_lead h
  refine compose_eq_some_iff.2 ⟨m, relative, ⟨hm, hcontains, fun n hn hncontains hne => ?_⟩, rfl, rfl⟩
  have hsize : n.path.text.utf8ByteSize ≠ m.path.text.utf8ByteSize := fun hsize =>
    hne (eq_of_path_eq hn hm (hncontains.eq_of_size hcontains hsize))
  exact lt_of_le_of_ne (hlongest n hn hncontains) hsize

theorem Response.body_sendRedirect (r : Response) (location : String) :
    (r.sendRedirect location).body = [] := by
  unfold sendRedirect
  split <;> rfl

theorem Response.get?_location (r : Response) (location : String) :
    (r.sendRedirect location).headers.get? "location" =
      if isHeaderValue (Utf8.encode location) then some (Utf8.encode location)
      else r.headers.get? "location" := by
  unfold sendRedirect
  split
  · rw [setHeader, Headers.get?_put, if_pos ⟨by decide, rfl⟩]
  · rfl

namespace Dispatch

open Mount

variable {p : Plan} {w : Welcome} {l : String}

theorem target_of_compose {t : Table} {fs : Files} {path : String} (hp : t.compose fs path = some p)
    (hw : p.mount.welcomed fs p.relative = some w) : p.target = p.mount.welcomeTarget w := by
  rw [(t.tail_of_compose hp).2, target_eq, hw]
  rfl

theorem welcomed_of_redirect {t : Table} {fs : Files} {path : String}
    (hp : t.compose fs path = some p) (hl : p.target = .redirect l) :
    ∃ w, p.mount.welcomed fs p.relative = some w ∧ w.redirected ∧ l = p.mount.path.lead ++ w.path := by
  have htarget := hl.symm.trans (t.tail_of_compose hp).2
  rw [target_eq] at htarget
  cases hw : p.mount.welcomed fs p.relative with
  | none =>
    rw [hw, Option.map_none, Option.getD_none, direct] at htarget
    cases hselect : p.mount.select p.relative <;> rw [hselect] at htarget <;> cases htarget
  | some w =>
    rw [hw, Option.map_some, Option.getD_some, welcomeTarget] at htarget
    split at htarget
    · exact ⟨w, rfl, ‹_›, Target.redirect.inj htarget⟩
    · cases htarget

end Dispatch

end ServletContainer
