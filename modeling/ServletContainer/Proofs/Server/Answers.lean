import ServletContainer.Proofs.Dispatch.Outcome
import ServletContainer.Proofs.Server.Requests

/-! The outcomes of the requests that a server answers. They tell what ran unless a preprocessor keeps
the request or a helper panics over the end of security (`Dispatch.execute_tells_iff`). -/
namespace ServletContainer

namespace Dispatch

/-- Whether an outcome tells what ran: nothing was found if and only if no mount contains the path or
its plan is empty, and the request was turned away if and only if security was asked and said no. In
all other cases the request was serviced. -/
structure Tells (env : Surroundings) (t : Table) (q : Incoming) (given : Pool) (o : Outcome) :
    Prop where
  notFound : o = .notFound ↔ ∀ p, t.compose env.files q.uri.path = some p → p.isEmpty
  forbidden : o = .forbidden ↔ ∃ p x, t.compose env.files q.uri.path = some p ∧ p.isEmpty = false ∧
    arrival env p (received q given) = some x ∧ rejects env p x

variable {env : Surroundings} {p : Plan} {t : Table} {q : Incoming} {given : Pool}

theorem tells_iff (hp : t.compose env.files q.uri.path = some p) (o : Outcome) :
    Tells env t q given o ↔ (o = .notFound ↔ p.isEmpty) ∧ (o = .forbidden ↔ p.isEmpty = false ∧
      ∃ x, arrival env p (received q given) = some x ∧ rejects env p x) := by
  constructor
  · rintro ⟨hnotFound, hforbidden⟩
    simpa [hp] using And.intro hnotFound hforbidden
  · rintro ⟨hnotFound, hforbidden⟩
    exact ⟨by simpa [hp] using hnotFound, by simpa [hp] using hforbidden⟩

theorem not_tells (hp : (t.compose env.files q.uri.path).any fun p => !p.isEmpty) :
    ¬ Tells env t q given .notFound := by
  intro htells
  obtain ⟨hsome, hne⟩ := (Option.any_eq_true_iff_get _ _).1 hp
  rw [htells.notFound.1 rfl _ (Option.some_get hsome).symm] at hne
  cases hne

/-- The outcome of a request that is answered tells what ran if and only if its plan is empty or
there is none, or all preprocessors pass the request on and the context's helper does not panic over
the end of security. In the other cases the request counts as not found, whatever ran. -/
theorem execute_tells_iff (env : Surroundings) (t : Table) (q : Incoming) (given : Pool)
    (hok : (execute env t q given).1 = .ok ()) :
    let o := (execute env t q given).2.outcome
    let concluded := ∀ p, t.compose env.files q.uri.path = some p → p.isEmpty = false →
      (arrival env p (received q given)).isSome ∧ settles p
    (Tells env t q given o ↔ concluded) ∧ (¬ concluded → o = .notFound) := by
  intro o concluded
  cases hp : t.compose env.files q.uri.path with
  | none =>
    have hexecute : execute env t q given =
        (.ok (), (received q given).setResponse (·.sendError 404)) := by rw [execute, hp]; rfl
    have ho : o = .notFound := congrArg (·.2.outcome) hexecute
    have htells : Tells env t q given o := ⟨by simp [ho, hp], by simp [ho, hp]⟩
    exact ⟨iff_of_true htells (by simp [concluded, hp]), fun _ => ho⟩
  | some p =>
    have hexecute := execute_eq env hp given
    rw [hexecute] at hok
    have ho : o = _ := (congrArg (·.2.outcome) hexecute).trans (outcome_runPlan env hok)
    have hstart : (received q given).outcome = .notFound := rfl
    have hconcluded : concluded ↔ (p.isEmpty = false →
        (arrival env p (received q given)).isSome ∧ settles p) := by simp [concluded, hp]
    rw [tells_iff hp, hconcluded]
    cases hempty : p.isEmpty with
    | true =>
      have ho : o = .notFound := by
        rw [ho, hempty, hstart]
        split <;> rfl
      simp [ho]
    | false =>
      rw [hempty, hstart] at ho
      cases harrival : arrival env p (received q given) with
      | none =>
        rw [harrival] at ho
        simp [ho]
      | some x =>
        rw [harrival] at ho
        cases hs : settles p with
        | false =>
          rw [hs] at ho
          simp [ho]
        | true =>
          rw [hs] at ho
          cases hr : rejects env p x <;> simp [ho, hr]

/-- A preprocessor that passes requests on. -/
theorem execute_tells_iff_passed :
    let steps : List Server.Step := [.start, .submit ⟨"add", [.addElement (.catchAll 1),
      .addElement (.filterAll 2 "log" .accessLog true)]⟩]
    let t := ((Server.new {} .idle {}).run steps).table
    let env : Surroundings := ⟨⟨"", ∅⟩, fun _ => ""⟩
    let q : Incoming := { uri := ⟨"/any", none⟩ }
    (execute env t q {}).1 = .ok () ∧ Tells env t q {} (execute env t q {}).2.outcome ∧
      (execute env t q {}).2.outcome = .serviced := by
  intro steps t env q
  have hanswered : (execute env t q {}).1.toBool := by decide +kernel
  have hconcluded : (t.compose env.files q.uri.path).all fun p =>
      (arrival env p (received q {})).isSome && settles p := by decide +kernel
  have houtcome : (execute env t q {}).2.outcome = .serviced := by decide +kernel
  obtain ⟨u, hu⟩ := exists_of_toBool hanswered
  have hok : (execute env t q {}).1 = .ok () := congrArg Prod.fst hu
  refine ⟨hok, (execute_tells_iff env t q {} hok).1.2 fun p hp _ => ?_, houtcome⟩
  rw [hp, Option.all_some, Bool.and_eq_true] at hconcluded
  exact hconcluded

/-- Two requests for a servlet that is there, both answered and yet not found: in the first the
servlet has run before the helper panics over the end of security and an error page answers, in the
second a preprocessor answers itself. -/
theorem execute_untold :
    let c : LogicalContext := { id := "c", path := ⟨"/c"⟩, order := 0,
                                helper := .scripted true [] [.panic "over"] }
    let page : Element := { Element.catchAll 2 ["c"] with
                            details := .errorPage [.code 500] "/any" }
    let first : List Server.Step := [.start, .submit ⟨"open", [.addContext c,
      .addElement (.catchAll 1 ["c"]), .addElement page]⟩]
    let second : List Server.Step := [.start, .submit ⟨"answer", [.addElement (.catchAll 1),
      .addElement (.filterAll 2 "answer" (.script [.write "p"]) true)]⟩]
    let env : Surroundings := ⟨⟨"", ∅⟩, fun _ => ""⟩
    let table steps := ((Server.new {} .idle {}).run steps).table
    let answer steps path := execute env (table steps) { uri := ⟨path, none⟩ } {}
    (answer first "/c/any").1.toBool ∧ .target ∈ (answer first "/c/any").2.calls ∧
      ¬ Tells env (table first) { uri := ⟨"/c/any", none⟩ } {} (answer first "/c/any").2.outcome ∧
      (answer second "/any").1.toBool ∧ (answer second "/any").2.response.status = 200 ∧
      ¬ Tells env (table second) { uri := ⟨"/any", none⟩ } {} (answer second "/any").2.outcome := by
  intro c page first second env table answer
  have hfirst : (answer first "/c/any").2.outcome = .notFound := by decide +kernel
  have hsecond : (answer second "/any").2.outcome = .notFound := by decide +kernel
  refine ⟨by decide +kernel, by decide +kernel, ?_, by decide +kernel, by decide +kernel, ?_⟩
  · rw [hfirst]
    exact not_tells (by decide +kernel)
  · rw [hsecond]
    exact not_tells (by decide +kernel)

end Dispatch

end ServletContainer
