import ServletContainer.Proofs.Dispatch.Length
import ServletContainer.Proofs.Server.Answers
import ServletContainer.Proofs.Server.Run

/-! The lengths that a server states. A response of a server states the length of the file that was served last,
and that is the length of its body only if nothing else has come to it (`run_length_iff`). -/
namespace ServletContainer

open Dispatch

variable (config : ServerConfig) (engine : Engine) (pool : Pool)

/-- If nobody else sets a length, the answer to a GET request states that of the file that was served last: by
the page for an error, or else by the target. So the length is that of the body exactly if the body is as long
as this file. It is if an error page serves the file, since nothing else is left in the body then, and if
everybody around the target only passes the request on. -/
theorem run_length_iff (steps : List Server.Step) (env : Surroundings) (q : Incoming) (given : Pool)
    (hget : q.method = "GET") :
    let t := ((Server.new config engine pool).run steps).table
    let answer := execute env t q given
    ∀ p pre filters pool₁ pool₂, t.compose env.files q.uri.path = some p →
      given.chain .preprocessor p.preprocessors = (.ok pre, pool₁) →
      pool₁.chain .filter p.filters = (.ok filters, pool₂) →
      SparesLength p pre filters given → answer.1 = .ok () →
      let ended := Filter.chain env pre (runSecured env p filters) (entry p (received q given) pool₂)
      let page := (pageOf p (failureOf ended.1) ended.2.response).bind fun page =>
        page.1.file env.files page.2
      let target := if .target ∈ ended.2.calls then p.target.file env.files else none
      answer.2.response.stated = (page.or target).map measure ∧
      (answer.2.response.Truthful ↔
        ∀ file, page.or target = some file → answer.2.response.body.length = file.length) ∧
      (∀ file, page = some file → answer.2.response.body = file) ∧
      (OnlyPassed env p (received q given) → ∀ file, p.target.file env.files = some file →
        answer.2.response.body = file ∧ answer.2.response.Truthful) := by
  intro t answer p pre filters pool₁ pool₂ hp hpre hfilters hspares hok ended page target
  have hserves (s : ActiveServlet) (pm : PatternMatch) (h : p.target = .servlet s pm) :
      s ∈ p.mount.servlets := mem_servlets_of_target hp h
  have hbefore : IsBefore (pre ++ filters) := by
    rw [IsBefore, List.forall_mem_append]
    exact ⟨isBefore_of_chain hpre nofun, isBefore_of_chain hfilters nofun⟩
  have hservlets : pool₂.servlets = given.servlets :=
    (servlets_chain hfilters).trans (servlets_chain hpre)
  have hentry : Measured env p (entry p (received q given) pool₂) := by
    refine ⟨hget, fun s hs source a hd ha => ?_, rfl⟩
    rw [show (entry p (received q given) pool₂).pool.servlets = given.servlets from hservlets] at ha
    exact hspares.servlets s hs source a hd ha
  have hended : Measured env p ended.2 :=
    keeps_chain (fun f hf => hspares.filters f (List.mem_append_left filters hf))
      (fun f hf => hbefore f (List.mem_append_left filters hf))
      (keeps_runSecured hspares hserves hbefore) _ hentry
  have hanswer : answer = runPlan env p (received q given) := by
    simp only [answer, execute, hp]
    rfl
  have hhandled : answer = handleErrors env p (failureOf ended.1) ended.2 :=
    hanswer.trans (runPlan_eq env hpre hfilters)
  have hanswered := answered_handleErrors env p (failureOf ended.1) ended.2
  rw [← hhandled] at hanswered
  obtain ⟨hstated, hpage⟩ := hended.answered hanswered hok
  have hserved : answer.2.response.stated = (page.or target).map measure := by
    rw [hstated, hended.stated, Option.map_or]
    refine congrArg (Option.or _) ?_
    simp only [target]
    split <;> rfl
  refine ⟨hserved, Response.truthful_iff hserved, hpage, fun hpassed file hfile => ?_⟩
  rw [hanswer]
  exact hpassed.served hget hfile rfl

/-- A page for a failure: what was written before is gone, and the length is that of the page. -/
theorem run_length_iff_page :
    let c : LogicalContext := { id := "c", path := ⟨"/c"⟩, order := 0,
                                helper := .directory (some "/files") none }
    let pages : Element := { Element.catchAll 1 ["c"] with
                             name := "pages", patterns := .urls [.extension "html"], details := .resource "" }
    let broken : Element := { Element.catchAll 2 ["c"] with
                              details := .servlet (.given (.script [.write "half", .fail none "no more"])) }
    let excuse : Element := { Element.catchAll 3 ["c"] with
                              details := .errorPage [.code 500] "/failed.html" }
    let steps : List Server.Step := [.start, .submit ⟨"open", [.addContext c, .addElement pages,
      .addElement broken, .addElement excuse,
      .addElement (.filterAll 4 "first" (.script [.write "first", .proceed]) true)]⟩]
    let t := ((Server.new {} .idle {}).run steps).table
    let env : Surroundings := ⟨(⟨"", ∅⟩ : Files).write "/files/failed.html" [104, 105], fun _ => ""⟩
    let q : Incoming := { uri := ⟨"/c/any", none⟩ }
    let answer := execute env t q {}
    answer.1 = .ok () ∧ answer.2.response.status = 500 ∧ answer.2.response.body = [104, 105] ∧
      answer.2.response.stated = some (Utf8.encode "2") ∧ answer.2.response.Truthful := by
  intro c pages broken excuse steps t env q answer
  let preOf (p : Plan) := ({} : Pool).chain .preprocessor p.preprocessors
  have hsome : (t.compose env.files q.uri.path).isSome := by decide +kernel
  have hall : (t.compose env.files q.uri.path).all fun p => p.view = some c && p.filters = [] &&
      (p.mount.servlets.all fun s => s.element = pages || s.element = broken) && (preOf p).1.toBool &&
        (preOf p).1.toOption.all (·.all (·.2.behaviour.sparesLength)) := by decide +kernel
  have hanswered : answer.1.toBool := by decide +kernel
  have hstated : answer.2.response.stated = some (Utf8.encode "2") := by decide +kernel
  have hbody : answer.2.response.body = [104, 105] := by decide +kernel
  obtain ⟨p, hp⟩ := Option.isSome_iff_exists.1 hsome
  simp only [hp, Option.all_some, Bool.and_eq_true, decide_eq_true_eq] at hall
  obtain ⟨⟨⟨⟨hview, hfilters⟩, hservlets⟩, hpre⟩, hspares⟩ := hall
  obtain ⟨pre, hpre⟩ := exists_of_toBool hpre
  obtain ⟨_, hu⟩ := exists_of_toBool hanswered
  have hok : answer.1 = .ok () := congrArg Prod.fst hu
  have hspares : SparesLength p pre [] {} := by
    refine ⟨fun f hf => ?_, fun c' hc' => ?_, fun s hs source a hd ha => ?_⟩
    · rw [List.append_nil] at hf
      rw [hpre] at hspares
      exact List.all_eq_true.1 hspares f hf
    · obtain rfl := Option.some.inj (hview.symm.trans hc')
      rfl
    · have hs := List.all_eq_true.1 hservlets s hs
      simp only [Bool.or_eq_true, decide_eq_true_eq] at hs
      rcases hs with hs | hs <;> rw [hs] at hd <;> cases hd
      cases ha
      rfl
  obtain ⟨hserved, htruthful, _⟩ := run_length_iff {} .idle {} steps env q {} rfl p pre [] _ _ hp hpre
    (by rw [hfilters]; rfl) hspares hok
  -- named by its definition alone, the answer is the theorem's, and nothing is run to compare the two
  simp only [answer, t] at hbody hstated ⊢
  refine ⟨hok, by decide +kernel, hbody, hstated, htruthful.2 fun file hfile => ?_⟩
  have htwo : measure [104, 105] = Utf8.encode "2" := by decide +kernel
  rw [hfile, Option.map_some, hstated, ← htwo] at hserved
  rw [hbody]
  exact measure_eq_iff.1 (Option.some.inj hserved)

/-- Two files that are served with a wrong length: before the first another filter has written, and after the
second a filter fails, so that a page that is no file takes its place. -/
theorem run_length_stale :
    let c : LogicalContext := { id := "c", path := ⟨"/c"⟩, order := 0,
                                helper := .directory (some "/files") none }
    let files : Element := { Element.catchAll 1 ["c"] with name := "files", details := .resource "" }
    let page : Element := { Element.catchAll 2 ["c"] with
                            patterns := .urls [.exact "/sorry"]
                            details := .servlet (.given (.script [.write "sorry"])) }
    let failed : Element := { Element.catchAll 3 ["c"] with
                              details := .errorPage [.code 500] "/sorry" }
    let filter (script : Script) : Element :=
      { Element.catchAll 4 ["c"] with details := .filter (.given (.script script)) [] false }
    let table (script : Script) := ((Server.new {} .idle {}).run [.start, .submit ⟨"open", [.addContext c,
      .addElement files, .addElement page, .addElement failed, .addElement (filter script)]⟩]).table
    let env : Surroundings := ⟨(⟨"", ∅⟩ : Files).write "/files/a" [104, 105], fun _ => ""⟩
    let answer (script : Script) := execute env (table script) { uri := ⟨"/c/a", none⟩ } {}
    let late : Script := [.proceed, .fail none "late"]
    ((answer [.write "x", .proceed]).1.toBool ∧
      (answer [.write "x", .proceed]).2.response.stated = some (Utf8.encode "2") ∧
      (answer [.write "x", .proceed]).2.response.body = Utf8.encode "xhi" ∧
      ¬ (answer [.write "x", .proceed]).2.response.Truthful) ∧
    (answer late).1.toBool ∧ (answer late).2.response.stated = some (Utf8.encode "2") ∧
      (answer late).2.response.body = Utf8.encode "sorry" ∧ ¬ (answer late).2.response.Truthful := by
  intro c files page failed filter table env answer late
  have huntruthful {r : Response} (hstated : r.stated = some (Utf8.encode "2"))
      (hbody : measure r.body ≠ Utf8.encode "2") : ¬ r.Truthful :=
    fun htruthful => hbody (htruthful _ hstated).symm
  have hwritten : (answer [.write "x", .proceed]).2.response.stated = some (Utf8.encode "2") := by
    decide +kernel
  have hlate : (answer late).2.response.stated = some (Utf8.encode "2") := by decide +kernel
  exact ⟨⟨by decide +kernel, hwritten, by decide +kernel, huntruthful hwritten (by decide +kernel)⟩,
    by decide +kernel, hlate, by decide +kernel, huntruthful hlate (by decide +kernel)⟩

end ServletContainer
