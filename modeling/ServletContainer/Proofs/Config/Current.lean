import ServletContainer.Proofs.Config.Reload

/-! Reloads of a file. A reload passes over a file whose content is that of the last reload that brought
something online, and declarations that are handed over by a call leave no content behind. So what the file
declares is online after a reload unless other declarations were handed over since the file was read with
this content (`ConfigManager.reload_current_iff`). -/
namespace ServletContainer

namespace Declared

variable {D D' : Declared} {default : ContextId} {n n' : Counters}

/-- The declarations say the same; directories may be spelled differently. -/
structure Same (D D' : Declared) : Prop where
  contexts : ∀ name, Option.Rel (fun x y => ContextDecl.same x y)
    (D.contexts.find? name) (D'.contexts.find? name)
  elements : D.elements = D'.elements

@[refl] theorem Same.refl (D : Declared) : D.Same D where
  contexts name := by
    cases D.contexts.find? name with
    | none => exact .none
    | some x => exact .some (ContextDecl.same_iff.2 ⟨rfl, rfl⟩)
  elements := rfl

section Counting

theorem le_addContext (default : ContextId) (D : Declared) (n : Counters) (x : ContextDecl) :
    n ≤ (D.addContext default n x).2 := by
  have hbuild : n ≤ (x.build n).2 := n.le_newContext x.name x.path
  unfold addContext
  split <;> rename_i heq <;> rw [heq] at hbuild
  · exact hbuild
  · split
    · exact hbuild
    · split <;> exact hbuild

theorem le_addElement (default : ContextId) (D : Declared) (n : Counters) (x : ElementDecl) :
    n ≤ (D.addElement default n x).2 := by
  have hbuild : n ≤ (x.build 0 n).2 := n.le_build (x.builder 0)
  unfold addElement
  split <;> rename_i heq <;> rw [heq] at hbuild
  · exact hbuild
  · split
    · exact hbuild
    · split <;> exact hbuild

variable {α : Type} {add : Declared → Counters → α → Except ConfigError Declared × Counters}

theorem le_addAll (hadd : ∀ D n x, n ≤ (add D n x).2) (D : Declared) (n : Counters) (xs : List α) :
    n ≤ (addAll add D n xs).2 := by
  induction xs generalizing D n with
  | nil => exact n.le_refl
  | cons x xs ih =>
    have hx := hadd D n x
    unfold addAll
    split
    · rename_i heq
      rw [heq] at hx
      exact Counters.le_trans hx (ih _ _)
    · exact hx

end Counting

end Declared

namespace Config

variable {c : Config} {D D' : Declared} {n n' : Counters} {content : Bytes}

theorem le_declared (c : Config) (n : Counters) : n ≤ (c.declared n).2 := by
  have hcontexts := Declared.le_addAll (Declared.le_addContext c.server.defaultContext) {} n c.contexts
  simp only [declared]
  split
  · rename_i d k heq
    rw [heq] at hcontexts
    exact Counters.le_trans hcontexts
      (Declared.le_addAll (Declared.le_addElement c.server.defaultContext) d k c.elements)
  · exact hcontexts

/-- The content is that of a configuration that is accepted, with these declarations. -/
def Declares (content : Bytes) (D : Declared) : Prop :=
  ∃ c, parse content = .ok c ∧ ∀ n, ∃ n', c.declared n = (.ok D, n')

theorem Declares.unique (h : Declares content D) (h' : Declares content D') : D = D' := by
  obtain ⟨c, hc, hD⟩ := h
  obtain ⟨c', hc', hD'⟩ := h'
  obtain rfl := Except.ok.inj (hc.symm.trans hc')
  obtain ⟨_, hn⟩ := hD {}
  obtain ⟨_, hn'⟩ := hD' {}
  exact Except.ok.inj (Prod.mk.inj (hn.symm.trans hn')).1

theorem declares_of_parse (hc : parse content = .ok c) (hD : c.declared n = (.ok D, n')) :
    Declares content D := ⟨c, hc, declared_renumber hD⟩

theorem declares_nil : Declares [] {} := by
  have hparse : parse [] = .ok {} := by decide +kernel
  have hdeclared : ({} : Config).declared {} = (.ok {}, {}) := rfl
  exact declares_of_parse hparse hdeclared

end Config

namespace ConfigManager

open Config Deployment

variable {m m' : ConfigManager} {s t s₀ : Server} {D D' : Declared} {base : LogicalContext}
  {config : ServerConfig} {engine : Engine} {pool : Pool} {content : Option Bytes} {file : Bytes}
  {changed : Bool}

section Reloading

theorem load_error {e : ReloadError} (h : m.load s file = (.error e, m', t)) :
    m' = m ∧ s.Consumes t := by
  unfold load at h
  split at h
  · cases h
    exact ⟨rfl, .refl s⟩
  · rename_i c _
    have hcount := c.le_declared s.counters
    split at h <;> rename_i heq <;> rw [heq] at hcount
    · cases h
      exact ⟨rfl, Server.consumes_counters hcount⟩
    · rename_i D counters
      rcases happly : m.apply { s with counters } D with ⟨cause | r, l, u⟩ <;> rw [happly] at h <;>
        cases h
      obtain ⟨rfl, hconsumes, _⟩ := apply_error happly
      exact ⟨rfl, (Server.consumes_counters hcount).trans hconsumes⟩

theorem load_ok {r : Option Report} (h : m.load s file = (.ok r, m', t)) :
    ∃ c D counters, parse file = .ok c ∧ c.declared s.counters = (.ok D, counters) ∧
      m.apply { s with counters } D = (.ok r, m', t) := by
  unfold load at h
  split at h
  · cases h
  · rename_i c hparse
    split at h
    · cases h
    · rename_i D counters hdeclared
      rcases happly : m.apply { s with counters } D with ⟨cause | r, l, u⟩ <;> rw [happly] at h <;>
        cases h
      exact ⟨c, D, counters, hparse, hdeclared, happly⟩

theorem reload_ok (h : m.reload s content = (.ok changed, m', t)) : ∃ file, content = some file ∧
    ((changed = false ∧ file = m.content ∧ m' = m ∧ t = s) ∨
      changed = true ∧ file ≠ m.content ∧
        ∃ r l, m.load s file = (.ok r, l, t) ∧ m' = { l with content := file }) := by
  unfold reload at h
  split at h
  · cases h
  · rename_i file
    refine ⟨file, rfl, ?_⟩
    split at h
    · rename_i heq
      cases h
      exact .inl ⟨rfl, heq, rfl, rfl⟩
    · rename_i hne
      split at h
      · rename_i r l u hload
        cases h
        exact .inr ⟨rfl, hne, r, l, hload, rfl⟩
      · cases h

theorem reload_error {e : ReloadError} (h : m.reload s content = (.error e, m', t)) :
    m' = m ∧ s.Consumes t := by
  unfold reload at h
  split at h
  · cases h
    exact ⟨rfl, .refl s⟩
  · split at h
    · cases h
    · split at h
      · cases h
      · rename_i hload
        cases h
        exact load_error hload

theorem Online.with_content (h : m.Online base s) (file : Bytes) :
    ({ m with content := file } : ConfigManager).Online base s :=
  ⟨h.defaultContext, h.bound, h.reserved, h.contexts, h.elements, h.injective, h.noted, h.fresh⟩

theorem Online.load {r : Option Report} (h : m.Online base s) (hok : m.load s file = (.ok r, m', t)) :
    m'.Online base t := by
  obtain ⟨c, D, counters, _, hD, happly⟩ := load_ok hok
  have hcount := c.le_declared s.counters
  rw [hD] at hcount
  have hcounted : m.Online base { s with counters } := h.congr rfl hcount.1
  have happlied := hcounted.apply (Config.checked hD)
  rw [happly] at happlied
  exact happlied

theorem Online.reload {r : Except ReloadError Bool} (h : m.Online base s)
    (hr : m.reload s content = (r, m', t)) : m'.Online base t := by
  cases r with
  | error e =>
    obtain ⟨rfl, hconsumes⟩ := reload_error hr
    exact h.congr hconsumes.deployment hconsumes.counters.1
  | ok changed =>
    obtain ⟨file, _, ⟨_, _, rfl, rfl⟩ | ⟨_, _, _, l, hload, rfl⟩⟩ := reload_ok hr
    · exact h
    · exact (h.load hload).with_content file

end Reloading

section Records

/-- What was brought online: declarations that a call handed over, or those of the file as it was read. -/
inductive Load where
  | handed (D : Declared)
  | read (file : Bytes)

/-- The content of the file when it was read last, of several loads, the latest first. -/
def lastRead : List Load → Bytes
  | [] => []
  | .handed _ :: loads => lastRead loads
  | .read file :: _ => file

/-- How far a manager and a server get when only the manager writes to the server. It is handed declarations
and told to reload its file, whatever the file holds by then. Meanwhile requests are served, elements built
and classes registered, and the engine may change as it likes. What it has loaded is listed, the latest
first. -/
inductive Kept (s₀ : Server) : List Load → ConfigManager → Server → Prop
  | start : Kept s₀ [] {} s₀
  | apply {loads : List Load} {m m' : ConfigManager} {s t : Server} {c : Config} {n n' : Counters}
      {D : Declared} {r : Option Report} : Kept s₀ loads m s → c.declared n = (.ok D, n') →
      m.apply s D = (.ok r, m', t) → Kept s₀ (.handed D :: loads) m' t
  | refused {loads : List Load} {m m' : ConfigManager} {s t : Server} {D : Declared} {e : ServerError} :
      Kept s₀ loads m s → m.apply s D = (.error e, m', t) → Kept s₀ loads m' t
  | reload {loads : List Load} {m m' : ConfigManager} {s t : Server} {file : Bytes} :
      Kept s₀ loads m s → m.reload s (some file) = (.ok true, m', t) →
      Kept s₀ (.read file :: loads) m' t
  | pass {loads : List Load} {m m' : ConfigManager} {s t : Server} {content : Option Bytes}
      {r : Except ReloadError Bool} : Kept s₀ loads m s → m.reload s content = (r, m', t) →
      r ≠ .ok true → Kept s₀ loads m' t
  | meanwhile {loads : List Load} {m : ConfigManager} {s : Server} (engine : Engine) (pool : Pool)
      (counters : Counters) (nextService : Nat) : Kept s₀ loads m s → s.counters ≤ counters →
      Kept s₀ loads m { s with engine, pool, counters, nextService }

variable {loads : List Load}

/-- What a manager has online is what its server holds, whether it comes from a call or from the file. -/
theorem Kept.online (h : Kept s₀ loads m s)
    (hs₀ : (Server.new config engine pool).start = (.ok (), s₀)) :
    ∃ p, ContextPath.parse config.defaultContextPath = .ok p ∧
      m.Online (Server.baseContext config p) s := by
  induction h with
  | start => exact online_start hs₀
  | apply _ hD happly ih =>
    obtain ⟨p, hp, honline⟩ := ih
    have happlied := honline.apply (Config.checked hD)
    rw [happly] at happlied
    exact ⟨p, hp, happlied⟩
  | refused _ happly ih =>
    obtain ⟨p, hp, honline⟩ := ih
    obtain ⟨rfl, hconsumes, _⟩ := apply_error happly
    exact ⟨p, hp, honline.congr hconsumes.deployment hconsumes.counters.1⟩
  | reload _ hreload ih | pass _ hreload _ ih =>
    obtain ⟨p, hp, honline⟩ := ih
    exact ⟨p, hp, honline.reload hreload⟩
  | meanwhile _ _ _ _ _ hcounters ih =>
    obtain ⟨p, hp, honline⟩ := ih
    exact ⟨p, hp, honline.congr rfl hcounters.1⟩

def Brought : List Load → Declared → Prop
  | [], D => D = {}
  | .handed D' :: _, D => D = D'
  | .read file :: _, D => Declares file D

/-- The manager remembers the content that it read last, which was accepted, and has online what the latest
load brought. -/
structure Recorded (loads : List Load) (m : ConfigManager) : Prop where
  content : m.content = lastRead loads
  declares : ∃ D, Declares m.content D
  online : Brought loads m.online

theorem Recorded.apply {r : Option Report} (h : Recorded loads m) (hok : m.apply s D = (.ok r, m', t)) :
    Recorded (.handed D :: loads) m' := by
  obtain ⟨_, es, _, rfl, _⟩ := apply_ok hok
  exact ⟨h.content, h.declares, rfl⟩

theorem Recorded.reload (hok : m.reload s content = (.ok true, m', t)) :
    ∃ file, content = some file ∧ Recorded (.read file :: loads) m' := by
  obtain ⟨file, hfile, ⟨hfalse, _⟩ | ⟨_, _, r, l, hload, rfl⟩⟩ := reload_ok hok
  · cases hfalse
  · obtain ⟨c, D, counters, hparse, hD, happly⟩ := load_ok hload
    obtain ⟨_, es, _, rfl, _⟩ := apply_ok happly
    have hdeclares : Declares file D := declares_of_parse hparse hD
    exact ⟨file, hfile, rfl, ⟨D, hdeclares⟩, hdeclares⟩

theorem eq_of_pass {r : Except ReloadError Bool} (hr : m.reload s content = (r, m', t))
    (hne : r ≠ .ok true) : m' = m := by
  cases r with
  | error e => exact (reload_error hr).1
  | ok changed =>
    obtain ⟨_, _, ⟨_, _, hm, _⟩ | ⟨rfl, _⟩⟩ := reload_ok hr
    · exact hm
    · exact absurd rfl hne

theorem Kept.recorded (h : Kept s₀ loads m s) : Recorded loads m := by
  induction h with
  | start => exact ⟨rfl, ⟨{}, declares_nil⟩, rfl⟩
  | apply _ _ happly ih => exact ih.apply happly
  | refused _ happly ih => exact (apply_error happly).1 ▸ ih
  | reload _ hreload _ =>
    obtain ⟨file, hfile, hrecorded⟩ := Recorded.reload hreload
    cases hfile
    exact hrecorded
  | pass _ hreload hne ih => exact eq_of_pass hreload hne ▸ ih
  | meanwhile _ _ _ _ _ _ ih => exact ih

theorem Recorded.same_iff (h : Recorded loads m) (hD : Declares m.content D) :
    D.Same m.online ↔ ∀ D', loads.head? = some (.handed D') → D.Same D' := by
  have hbrought := h.online
  match loads, h, hbrought with
  | [], h, hbrought =>
    have hempty : m.content = [] := h.content
    have hD : D = {} := hD.unique (hempty ▸ declares_nil)
    exact iff_of_true (by rw [hD, show m.online = {} from hbrought]) nofun
  | .handed D' :: _, _, hbrought =>
    rw [show m.online = D' from hbrought]
    simp
  | .read file :: _, h, hbrought =>
    have hread : m.content = file := h.content
    have hsame : D = m.online := hD.unique (hread ▸ hbrought)
    exact iff_of_true (by rw [← hsame]) (by simp)

end Records

section Current

/-- The declarations are what the manager has online and, element by element under the numbers that it has
noted, what is deployed; nothing else is but the default context. -/
structure Current (m : ConfigManager) (D : Declared) (d : Deployment) : Prop where
  online : D.Same m.online
  reserved : D.contexts.find? d.defaultContext = none
  contexts : ∀ name, name ≠ d.defaultContext →
    Option.Rel ContextDecl.Describes (D.contexts.find? name) (d.contexts.find? name)
  elements : ∀ key, Option.Rel d.Serves (D.elements.find? key) (m.elements.find? key)
  injective : ∀ key key' id, m.elements.find? key = some id → m.elements.find? key' = some id →
    key = key'
  noted : ∀ id e, d.placed id = some e → ∃ key, m.elements.find? key = some id

theorem Online.current_iff (h : m.Online base s) : m.Current D s.deployment ↔ D.Same m.online := by
  refine ⟨Current.online, fun hsame => ?_⟩
  have hcontexts {name : ContextId} {o : Option LogicalContext}
      (ho : Option.Rel ContextDecl.Describes (m.online.contexts.find? name) o) :
      Option.Rel ContextDecl.Describes (D.contexts.find? name) o := by
    have hrel := hsame.contexts name
    cases hx : D.contexts.find? name with
    | none =>
      rw [hx] at hrel
      rwa [eq_none_of_rel_left hrel] at ho
    | some x =>
      rw [hx] at hrel
      obtain ⟨y, hy, hxy⟩ := exists_right_of_rel hrel
      rw [hy] at ho
      obtain ⟨c, rfl, hc⟩ := exists_right_of_rel ho
      exact .some (hc.of_same (ContextDecl.same_symm hxy))
  exact {
    online := hsame
    reserved := by
      have hrel := hsame.contexts base.id
      rw [h.reserved] at hrel
      rw [h.defaultContext]
      exact eq_none_of_rel_right hrel
    contexts := fun name hname => hcontexts (h.contexts name (h.defaultContext ▸ hname))
    elements := hsame.elements ▸ h.elements
    injective := h.injective
    noted := h.noted }

/-- A reload that succeeds says whether the content of the file is another than when it was read last. It
was accepted as a configuration then or now, and what it declares is online and deployed exactly if the
content is another, or the latest load was not a call that handed over other declarations. -/
theorem reload_current_iff (hs₀ : (Server.new config engine pool).start = (.ok (), s₀))
    (h : Kept s₀ loads m s) (hok : m.reload s content = (.ok changed, m', t)) :
    ∃ file D, content = some file ∧ Declares file D ∧ (changed ↔ file ≠ lastRead loads) ∧
      (m'.Current D t.deployment ↔
        ∀ D', loads.head? = some (.handed D') → file = lastRead loads → D.Same D') := by
  obtain ⟨p, _, honline⟩ := h.online hs₀
  have hcurrent {D : Declared} := (honline.reload hok).current_iff (D := D)
  have hrecorded := h.recorded
  obtain ⟨file, rfl, ⟨rfl, hsame, rfl, rfl⟩ | ⟨rfl, hother, _⟩⟩ := reload_ok hok
  · -- Nothing is read, so what the file declares is known from when it was read.
    obtain ⟨D, hD⟩ := hrecorded.declares
    have hlast : file = lastRead loads := hsame.trans hrecorded.content
    refine ⟨file, D, rfl, hsame ▸ hD, by simp [hlast], ?_⟩
    rw [hcurrent, hrecorded.same_iff hD]
    simp [hlast]
  · obtain ⟨_, hfile, hread⟩ : ∃ f, some file = some f ∧ Recorded (.read f :: loads) m' :=
      Recorded.reload hok
    cases hfile
    have hlast : file ≠ lastRead loads := hrecorded.content ▸ hother
    refine ⟨file, m'.online, rfl, hread.online, by simp [hlast], ?_⟩
    rw [hcurrent]
    exact iff_of_true (.refl _) fun D' _ heq => absurd heq hlast

/-- The file is read, and a call withdraws what it declares. To read it again is to pass over it, unless it
has been edited. -/
theorem reload_current_iff_edited :
    let main (path : String) : ContextDecl := { name := "main", path }
    let file := Utf8.encode "[[contexts]]\nname = \"main\"\npath = \"/m\"\n"
    let edited := Utf8.encode "[[contexts]]\nname = \"main\"\npath = \"/n\"\n"
    let s₀ := (Server.new {} .idle {}).start.2
    ∃ m s, Kept s₀ [.handed {}, .read file] m s ∧
      (∃ m' t, m.reload s (some file) = (.ok false, m', t) ∧
        ¬ m'.Current ⟨.ofList [("main", main "/m")], ∅⟩ t.deployment) ∧
      ∃ m' t, m.reload s (some edited) = (.ok true, m', t) ∧
        m'.Current ⟨.ofList [("main", main "/n")], ∅⟩ t.deployment := by
  intro main file edited s₀
  have hs₀ : (Server.new {} .idle {}).start = (.ok (), s₀) := by decide +kernel
  have hfile : Declares file ⟨.ofList [("main", main "/m")], ∅⟩ := by
    have hparse : parse file = .ok { contexts := [main "/m"] } := by decide +kernel
    have hdeclared : Config.declared { contexts := [main "/m"] } {} =
        (.ok ⟨.ofList [("main", main "/m")], ∅⟩, ⟨1, 2⟩) := by decide +kernel
    exact declares_of_parse hparse hdeclared
  have hedited : Declares edited ⟨.ofList [("main", main "/n")], ∅⟩ := by
    have hparse : parse edited = .ok { contexts := [main "/n"] } := by decide +kernel
    have hdeclared : Config.declared { contexts := [main "/n"] } {} =
        (.ok ⟨.ofList [("main", main "/n")], ∅⟩, ⟨1, 2⟩) := by decide +kernel
    exact declares_of_parse hparse hdeclared
  have hreload {m : ConfigManager} {s : Server} {c : Option Bytes} {r : Except ReloadError Bool}
      (h : (m.reload s c).1 = r) : m.reload s c = (r, (m.reload s c).2.1, (m.reload s c).2.2) :=
    Prod.ext h rfl
  have hempty {loads : List Load} {m : ConfigManager} {s : Server} (h : Kept s₀ loads m s)
      (hok : (m.apply s {}).1.toBool) :
      Kept s₀ (.handed {} :: loads) (m.apply s {}).2.1 (m.apply s {}).2.2 := by
    have hdeclared : ({} : Config).declared {} = (.ok {}, {}) := rfl
    rcases happly : m.apply s {} with ⟨e | r, m', t⟩ <;> rw [happly] at hok
    · cases hok
    · exact h.apply hdeclared happly
  obtain ⟨m, s, hkept, hsame, hother⟩ : ∃ m s, Kept s₀ [.handed {}, .read file] m s ∧
      (m.reload s (some file)).1 = .ok false ∧ (m.reload s (some edited)).1 = .ok true := by
    have hread : Kept s₀ [.read file] _ _ := .reload .start (hreload (by decide +kernel))
    exact ⟨_, _, hempty hread (by decide +kernel), by decide +kernel, by decide +kernel⟩
  refine ⟨m, s, hkept, ⟨_, _, hreload hsame, ?_⟩, _, _, hreload hother, ?_⟩
  · obtain ⟨_, D, heq, hD, _, hiff⟩ := reload_current_iff hs₀ hkept (hreload hsame)
    obtain rfl := Option.some.inj heq
    obtain rfl := hfile.unique hD
    rw [hiff]
    intro hcurrent
    have hmain := eq_none_of_rel_right ((hcurrent {} rfl rfl).contexts "main")
    revert hmain
    decide +kernel
  · obtain ⟨_, D, heq, hD, hchanged, hiff⟩ := reload_current_iff hs₀ hkept (hreload hother)
    obtain rfl := Option.some.inj heq
    obtain rfl := hedited.unique hD
    exact hiff.2 fun _ _ hlast => absurd hlast (hchanged.1 rfl)

/-- The file declares a context, which is online until a call withdraws it. It stays withdrawn when the file
is reloaded, which succeeds. -/
theorem reload_passes_over :
    let file := Utf8.encode "[[contexts]]\nname = \"main\"\npath = \"/m\"\n"
    let D : Declared := ⟨.ofList [("main", { name := "main", path := "/m" })], ∅⟩
    let first := ({} : ConfigManager).reload (Server.new {} .idle {}).start.2 (some file)
    let handed := first.2.1.apply first.2.2 {}
    let again := handed.2.1.reload handed.2.2 (some file)
    Declares file D ∧ first.1 = .ok true ∧ first.2.1.online = D ∧ handed.1.toBool ∧
      again.1 = .ok false ∧ again.2.1.online = {} ∧
      again.2.2.deployment.contexts.find? "main" = none ∧ ¬ again.2.1.Current D again.2.2.deployment := by
  intro file D first handed again
  have hparse : parse file = .ok { contexts := [{ name := "main", path := "/m" }] } := by decide +kernel
  have hdeclared : Config.declared { contexts := [{ name := "main", path := "/m" }] } {} =
      (.ok D, ⟨1, 2⟩) := by decide +kernel
  have honline : again.2.1.online = {} := by decide +kernel
  refine ⟨declares_of_parse hparse hdeclared, by decide +kernel, by decide +kernel, by decide +kernel,
    by decide +kernel, honline, by decide +kernel, fun hcurrent => ?_⟩
  have hmain := hcurrent.online.contexts "main"
  rw [honline] at hmain
  cases eq_none_of_rel_right hmain

end Current

end ConfigManager

end ServletContainer
