import ServletContainer.Proofs.Dispatch.Welcome
import ServletContainer.Proofs.Server.Answers
import ServletContainer.Proofs.Server.Rejections

/-! Welcome files of a server. A resource that is served as one finds what was found when its plan was made
(`run_welcome_served`). A redirection to one can be followed, unless a longer mount path contains its location
or another welcome file is found for it; whether the client learns of it depends on whether a header can hold
the location (`run_redirect_followed`). -/
namespace ServletContainer

open Dispatch Mount

variable (config : ServerConfig) (engine : Engine) (pool : Pool)

/-- A resource that is served as a welcome file puts the question that it was checked with: to the helper of
its context, on behalf of its owner, for the name that its match leads to. So the file that was found then is
the answer to a GET request that everybody else only passes on, if it can still be read; and a request that
is run at once finds it. -/
theorem run_welcome_served (steps : List Server.Step) (fs : Files) (path : String) (p : Plan) (w : Welcome)
    (folder : String)
    (hp : ((Server.new config engine pool).run steps).table.compose fs path = some p)
    (hw : p.mount.welcomed fs p.relative = some w) (hserved : w.redirected = false)
    (hd : w.servlet.element.details = .resource folder) :
    let t := ((Server.new config engine pool).run steps).table
    p.target = .servlet w.servlet w.found ∧ ∃ c file, w.servlet.context = some c ∧
      let asked : Inquiry := ⟨c.helper, w.servlet.element.owner,
        Resource.nameOf folder w.found.servletPath w.found.pathInfo⟩
      (∀ fs', isUsable fs' w.servlet w.found = (asked.answer fs').isSome) ∧
      (∀ env x, ∃ y, runTarget env p x = Resource.service env folder y ∧
        y.request.inquiry folder = some asked) ∧
      asked.answer fs = some file ∧
      ∀ env q given, q.method = "GET" → OnlyPassed env p (received q given) →
        (∀ bytes, env.files.root = fs.root → env.files.read? file = some bytes →
          let answer := runPlan env p (received q given)
          answer.1 = .ok () ∧ answer.2.response.status = 200 ∧ answer.2.response.body = bytes) ∧
        (env.files = fs → q.uri.path = path → ∃ bytes, fs.read? file = some bytes ∧
          let answer := execute env t q given
          answer.1 = .ok () ∧ answer.2.response.status = 200 ∧ answer.2.response.body = bytes) := by
  intro t
  have htarget : p.target = .servlet w.servlet w.found := by
    rw [target_of_compose hp hw, welcomeTarget, hserved]
    rfl
  have husable := (select_of_welcomed hw).2
  rw [isUsable_eq hd, Option.any_eq_true] at husable
  obtain ⟨asked, hasked, hanswer⟩ := husable
  obtain ⟨_, c, hd', hc, rfl⟩ := ActiveServlet.inquiry_eq_some_iff.1 hasked
  cases hd.symm.trans hd'
  obtain ⟨file, hfile⟩ := Option.isSome_iff_exists.1 hanswer
  refine ⟨htarget, c, file, hc, fun fs' => ?_, fun env x => ?_, hfile, fun env q given hget hpassed => ?_⟩
  · rw [isUsable_eq hd, hasked, Option.any_some]
  · obtain ⟨y, hy, hinquiry, _⟩ := invoke_eq_service env (x := (Plan.aim p w.found x).called .target) hasked hd rfl rfl
    exact ⟨y, by rw [runTarget, htarget]; exact hy, hinquiry⟩
  · have hfound (bytes : Bytes) (hroot : env.files.root = fs.root) (hread : env.files.read? file = some bytes) :
        (runPlan env p (received q given)).1 = .ok () ∧
          (runPlan env p (received q given)).2.response.status = 200 ∧
          (runPlan env p (received q given)).2.response.body = bytes := by
      have hcontent := Inquiry.content_of_read? hfile hroot hread
      obtain ⟨hok, hresponse⟩ := hpassed.answer_eq_reply hget rfl htarget hasked hcontent
      rw [hresponse, Inquiry.status_reply hcontent, Inquiry.body_reply hcontent]
      exact ⟨hok, rfl, rfl⟩
    refine ⟨hfound, fun hfs hpath => ?_⟩
    obtain ⟨bytes, hread⟩ := Option.isSome_iff_exists.1 (Helper.isFile_of_resource hfile)
    subst hfs
    refine ⟨bytes, hread, ?_⟩
    have hp : t.compose env.files q.uri.path = some p := hpath ▸ hp
    simp only [execute, hp]
    exact hfound bytes rfl hread

/-- A request that asks for a directory, with a log around everything. -/
theorem run_welcome_served_index :
    let c : LogicalContext := { id := "c", path := ⟨"/c"⟩, order := 0,
                                helper := .directory (some "/files") none }
    let resource : Element := { Element.catchAll 1 ["c"] with details := .resource "/docs" }
    let welcome : Element := { Element.catchAll 2 ["c"] with
                               patterns := .unmapped, details := .welcomeFile ["index.html"] false }
    let steps : List Server.Step := [.start, .submit ⟨"open", [.addContext c, .addElement resource,
      .addElement welcome, .addElement (.filterAll 3 "log" .accessLog true)]⟩]
    let t := ((Server.new {} .idle {}).run steps).table
    let fs := (⟨"", ∅⟩ : Files).write "/files/docs/index.html" [104, 105]
    let env : Surroundings := ⟨fs, fun _ => ""⟩
    let q : Incoming := { uri := ⟨"/c/", none⟩ }
    ∃ p w, t.compose fs "/c/" = some p ∧ p.mount.welcomed fs p.relative = some w ∧ w.redirected = false ∧
      w.servlet.element.details = .resource "/docs" ∧ OnlyPassed env p (received q {}) ∧
      (execute env t q {}).2.response.status = 200 ∧ (execute env t q {}).2.response.body = [104, 105] := by
  intro c resource welcome steps t fs env q
  let preOf (p : Plan) := ({} : Pool).chain .preprocessor p.preprocessors
  have hsome : (t.compose fs "/c/").isSome := by decide +kernel
  have hfound : (t.compose fs "/c/").all fun p =>
      (p.mount.welcomed fs p.relative).any (fun w => !w.redirected && w.servlet.element = resource) &&
        p.view = some c && p.filters = [] && (preOf p).1.toBool := by decide +kernel
  have hlogs : (t.compose fs "/c/").all fun p =>
      (preOf p).1.toOption.all (·.all (·.2.behaviour = .accessLog)) := by decide +kernel
  obtain ⟨p, hp⟩ := Option.isSome_iff_exists.1 hsome
  simp only [hp, Option.all_some, Bool.and_eq_true, decide_eq_true_eq] at hfound hlogs
  obtain ⟨⟨⟨hwelcomed, hview⟩, hfilters⟩, hpre⟩ := hfound
  obtain ⟨w, hw, hserved⟩ := (Option.any_eq_true _ _).1 hwelcomed
  simp only [Bool.and_eq_true, Bool.not_eq_true', decide_eq_true_eq] at hserved
  obtain ⟨pre, hpre⟩ := exists_of_toBool hpre
  have hpass : ∀ f ∈ pre, Filter.PassesOn env f.2 := by
    rw [hpre] at hlogs
    exact fun f hf => Filter.passesOn_accessLog env (by simpa using List.all_eq_true.1 hlogs f hf)
  have hd : w.servlet.element.details = .resource "/docs" := by rw [hserved.2]
  have hpassed : OnlyPassed env p (received q {}) := by
    refine ⟨⟨pre, _, [], _, hpre, by rw [hfilters]; rfl, by simpa using hpass⟩, fun c' hc' y _ => ?_⟩
    obtain rfl := Option.some.inj (hview.symm.trans hc')
    exact ⟨rfl, _, rfl, rfl⟩
  obtain ⟨_, _, file, _, _, _, _, hanswer⟩ :=
    run_welcome_served {} .idle {} steps fs "/c/" p w "/docs" hp hw hserved.1 hd
  obtain ⟨bytes, hread, _, hstatus, hbody⟩ := (hanswer env q {} rfl hpassed).2 rfl rfl
  -- with the table spelled out as in the theorem, nothing is run to compare the answers
  simp only [t]
  exact ⟨p, w, hp, hw, hserved.1, hd, hpassed, hstatus, by decide +kernel⟩

/-- A request that is redirected to a welcome file is answered with 302 and the location, if a header can hold
it, when everybody else only passes it on. If no longer mount path contains the location, it leads to the
same mount, and there to the servlet and the match that the welcome file was found usable with, unless another
welcome file is found for it. None is if the location does not end with a slash, or the helper of the servlet's
context has no resource for names that do. -/
theorem run_redirect_followed (steps : List Server.Step) (env : Surroundings) (q : Incoming)
    (given : Pool) :
    let d := ((Server.new config engine pool).run steps).deployment
    ∀ p l, d.table.compose env.files q.uri.path = some p → p.target = .redirect l →
      (OnlyPassed env p (received q given) →
        let answer := execute env d.table q given
        answer.1 = .ok () ∧ answer.2.response.status = 302 ∧ answer.2.response.body = [] ∧
          answer.2.response.headers.get? "location" =
            if isHeaderValue (Utf8.encode l) then some (Utf8.encode l) else none) ∧
      ∃ w, p.mount.welcomed env.files p.relative = some w ∧ w.redirected ∧
        p.mount.select w.path = some (w.servlet, w.found) ∧ isUsable env.files w.servlet w.found ∧
        l = p.mount.path.lead ++ w.path ∧
        ((∀ n ∈ d.table.mounts, n.path.Contains l →
            n.path.text.utf8ByteSize ≤ p.mount.path.text.utf8ByteSize) →
          ∃ p', d.table.compose env.files l = some p' ∧ p'.mount = p.mount ∧
            p'.target = ((p.mount.welcomed env.files w.path).map p.mount.welcomeTarget).getD
              (.servlet w.servlet w.found) ∧
            ((w.path.toList.getLast? ≠ some '/' ∨ ∀ c, w.servlet.context = some c →
                c.helper.SparesDirectories env.files w.servlet.element.owner) →
              p'.target = .servlet w.servlet w.found)) := by
  intro d p l hp hl
  refine ⟨fun hpassed => ?_, ?_⟩
  · have hne : p.isEmpty = false := isEmpty_of_target (by simp [hl])
    intro answer
    have hanswer : answer = runPlan env p (received q given) := by
      simp only [answer, execute, hp]
      rfl
    have hstatus (r : Response) : (r.sendRedirect l).status = 302 := r.status_sendRedirect l
    obtain ⟨hok, hresponse⟩ := hpassed.answer_eq hne (·.sendRedirect l)
      (fun y _ => by simp [runTarget, hl, Exchange.setResponse, Exchange.called])
      (by rw [hstatus]; decide)
    rw [hanswer, hresponse, hstatus, Response.get?_location, Response.body_sendRedirect]
    exact ⟨hok, rfl, rfl, rfl⟩
  · obtain ⟨w, hw, hredirected, rfl⟩ := welcomed_of_redirect hp hl
    obtain ⟨hselect, husable⟩ := select_of_welcomed hw
    refine ⟨w, hw, hredirected, hselect, husable, rfl, fun hlongest => ?_⟩
    have hrelative := (d.table.tail_of_compose hp).1.1
    obtain ⟨m, relative, hselects, _, rfl⟩ := Deployment.compose_eq_some_iff.1 hp
    refine ⟨_, Deployment.compose_lead hselects.1 (head?_of_welcomed hrelative hw) hlongest, rfl,
      target_path_of_welcomed hw, fun hspares => target_of_welcomed hrelative hw fun hlast => ?_⟩
    exact isPrecise_of_isUsable hselect husable (hspares.resolve_left (absurd hlast)) hlast

/-- A servlet for the pages of a directory, and its index as a welcome file to redirect to. -/
theorem run_redirect_followed_index :
    let c : LogicalContext := { id := "c", path := ⟨"/c"⟩, order := 0 }
    let pages : Element := { Element.catchAll 1 ["c"] with patterns := .urls [.extension "html"] }
    let welcome : Element := { Element.catchAll 2 ["c"] with
                               patterns := .unmapped, details := .welcomeFile ["index.html"] true }
    let steps : List Server.Step := [.start, .submit ⟨"open", [.addContext c, .addElement pages,
      .addElement welcome]⟩]
    let d := ((Server.new {} .idle {}).run steps).deployment
    let env : Surroundings := ⟨⟨"", ∅⟩, fun _ => ""⟩
    let q : Incoming := { uri := ⟨"/c/", none⟩ }
    let answer := execute env d.table q {}
    ∃ (p p' : Plan) (w : Welcome), d.table.compose env.files "/c/" = some p ∧ p.target = .redirect "/c/index.html" ∧
      OnlyPassed env p (received q {}) ∧ answer.2.response.status = 302 ∧
      answer.2.response.headers.get? "location" = some (Utf8.encode "/c/index.html") ∧
      d.table.compose env.files "/c/index.html" = some p' ∧ p'.target = .servlet w.servlet w.found ∧
      w.found.kind = .extension := by
  intro c pages welcome steps d env q answer
  have hsome : (d.table.compose env.files "/c/").isSome := by decide +kernel
  have hall : (d.table.compose env.files "/c/").all fun p => p.target = .redirect "/c/index.html" &&
      p.preprocessors = [] && p.filters = [] && p.view = some c && p.mount.path = ⟨"/c"⟩ &&
        (p.mount.welcomed env.files p.relative).all fun w =>
          w.found.kind = .extension && w.path.toList.getLast? ≠ some '/' := by decide +kernel
  have hheader : isHeaderValue (Utf8.encode "/c/index.html") := by decide +kernel
  obtain ⟨p, hp⟩ := Option.isSome_iff_exists.1 hsome
  simp only [hp, Option.all_some, Bool.and_eq_true, decide_eq_true_eq] at hall
  obtain ⟨⟨⟨⟨⟨hl, hpre⟩, hfilters⟩, hview⟩, hpath⟩, hkind⟩ := hall
  have hpassed : OnlyPassed env p (received q {}) := by
    refine ⟨⟨[], _, [], _, by rw [hpre]; rfl, by rw [hfilters]; rfl, nofun⟩, fun c' hc' y _ => ?_⟩
    obtain rfl := Option.some.inj (hview.symm.trans hc')
    exact ⟨rfl, _, rfl, rfl⟩
  have hlongest : ∀ n ∈ d.table.mounts, n.path.Contains "/c/index.html" →
      n.path.text.utf8ByteSize ≤ p.mount.path.text.utf8ByteSize := by
    rw [hpath]
    have hall : d.table.mounts.all fun n => n.path.text.utf8ByteSize ≤ "/c".utf8ByteSize := by
      decide +kernel
    exact fun n hn _ => of_decide_eq_true (List.all_eq_true.1 hall n hn)
  obtain ⟨hanswer, w, hw, _, _, _, _, hfollowed⟩ :=
    run_redirect_followed {} .idle {} steps env q {} p _ hp hl
  obtain ⟨_, hstatus, _, hlocation⟩ := hanswer hpassed
  rw [if_pos hheader] at hlocation
  obtain ⟨p', hp', _, _, htarget⟩ := hfollowed hlongest
  rw [hw, Option.all_some, Bool.and_eq_true, decide_eq_true_eq, decide_eq_true_eq] at hkind
  simp only [answer, d]
  exact ⟨p, p', w, hp, hl, hpassed, hstatus, hlocation, hp', htarget (.inl hkind.2), hkind.1⟩

/-- Three redirections that cannot be followed: a longer mount path contains the location of the first, no
header can hold that of the second, and that of the third is redirected again and again, by a helper that has
a resource for names that end with a slash. -/
theorem run_redirect_lost :
    let context (id : ContextId) (path : String) (helper : Helper) : LogicalContext :=
      { id, path := ⟨path⟩, order := 0, helper }
    let pages : Element := { Element.catchAll 1 ["outer"] with patterns := .urls [.extension "html"] }
    let resource : Element := { Element.catchAll 1 ["outer"] with details := .resource "" }
    let welcome (file : String) : Element :=
      { Element.catchAll 2 ["outer"] with patterns := .unmapped, details := .welcomeFile [file] true }
    let steps (helper : Helper) (e : Element) (file : String) : List Server.Step :=
      [.start, .submit ⟨"open", [.addContext (context "outer" "/c" helper),
        .addContext (context "inner" "/c/docs" .standard), .addElement e, .addElement (welcome file)]⟩]
    let table (helper : Helper) (e : Element) (file : String) :=
      ((Server.new {} .idle {}).run (steps helper e file)).table
    let env : Surroundings := ⟨(⟨"", ∅⟩ : Files).write "/index.html" [], fun _ => ""⟩
    let answer (file : String) :=
      (execute env (table .standard pages file) { uri := ⟨"/c/", none⟩ } {}).2.response
    let target (t : Table) (path : String) := (t.compose env.files path).map (·.target)
    let home := table (.scripted true [] [] (some [((none, "/home/"), "/index.html"),
      ((none, "/home/home/"), "/index.html"), ((none, "/home/home/home/"), "/index.html")])) resource "home/"
    (target (table .standard pages "docs/index.html") "/c/" = some (.redirect "/c/docs/index.html") ∧
      answer "docs/index.html" =
        { status := 302, headers := [("location", Utf8.encode "/c/docs/index.html")] } ∧
      target (table .standard pages "docs/index.html") "/c/docs/index.html" = some .nothing) ∧
    (target (table .standard pages "in\ndex.html") "/c/" = some (.redirect "/c/in\ndex.html") ∧
      answer "in\ndex.html" = { status := 302 }) ∧
    target home "/c/" = some (.redirect "/c/home/") ∧
      target home "/c/home/" = some (.redirect "/c/home/home/") ∧
      target home "/c/home/home/" = some (.redirect "/c/home/home/home/") := by
  decide +kernel

end ServletContainer
