import Custody.Proofs.Call.Guard
import Custody.Proofs.Failure.Registration
import Custody.Proofs.Report

/-!
# What becomes of a failure

A function that fails or panics is reported to the host, and the host gets a number.  The number
does not depend on the report, and the report changes at most one symbol of the host.

- `reported_spec`: a report as the host sees it.
- `Failure.exists_condition`: the number of a failure is always that of a registered condition.
- `enter_reports`: every call, however it ends.
-/

namespace Custody

open Registry SessionM Text

/-! ## The details of a failure -/

/-- What a reader finds in the details of a failure: the number that the host gets, the message that
is registered for it, and the name and the message of the failure itself. -/
def details (code : Int) (condition : Condition) (failure : Failure) : JsonValue :=
  .object [("id", .number code 0), ("message", .string condition.message),
    ("name", .string failure.name), ("parameters", .string failure.message)]

theorem read?_details {failure : Failure} {r : Registry} {condition : Condition}
    (h : r.byId? (failure.id r) = some condition) :
    JsonValue.read? (failure.details r).render =
      some (details (failure.id r) condition failure) := by
  have hobject : failure.details r =
      .obj [("id", .int (failure.id r)), ("message", .str condition.message),
        ("name", .str failure.name), ("parameters", .str failure.message)] := by
    have hid : "id" < "name" := by decide
    have hmessage : ¬ "message" < "id" ∧ "message" < "name" := by decide
    have hparameters : ¬ "parameters" < "id" ∧ ¬ "parameters" < "message" ∧
      ¬ "parameters" < "name" := by decide
    simp [Failure.details, h, Json.object, Json.insertMember, hid, hmessage, hparameters]
  rw [Json.read?_render, hobject]
  rfl

namespace Failure

/-- The number of a failure is the id of a condition: that of its name, or that of the host's own
condition for errors of a function. -/
theorem exists_condition {r : Registry} (hr : r.Reachable) (failure : Failure) :
    ∃ condition, r.byId? (failure.id r) = some condition := by
  obtain ⟨condition, hmem, hid⟩ : ∃ condition ∈ r.conditions, condition.id = failure.id r := by
    cases hfound : r.byName? failure.name with
    | some condition =>
      exact ⟨condition, List.mem_of_find?_eq_some hfound, (id_eq_of_byName? hfound).symm⟩
    | none =>
      obtain ⟨condition, hcondition, hnumber⟩ := hr.byName?_functionError
      refine ⟨condition, List.mem_of_find?_eq_some hcondition, ?_⟩
      rw [hnumber, Failure.id, hfound]
  exact ⟨condition, hr.numbered.byId?_eq_some_iff.mpr ⟨hmem, hid⟩⟩

end Failure

/-- A panic is reported under the number that the host gets. -/
theorem id_panicFailure {r : Registry} (hr : r.Reachable) :
    panicFailure.id r = functionErrorId := by
  obtain ⟨condition, hcondition, hnumber⟩ := hr.byName?_functionError
  have hid : panicFailure.id r = condition.id := Failure.id_eq_of_byName? hcondition
  rw [hid, hnumber]

/-! ## A report -/

/-- A report of a failure under a number, and the session that it leaves. -/
structure Reported (code : Int) (failure : Failure) (s s' : Session) : Prop where
  /-- Nothing changes but the memory of the host. -/
  elsewhere : s' = { s with memory := s'.memory }
  /-- Nothing changes at all without a host, or under a name that cannot cross. -/
  unheard : (∀ host, s.host = some host → ¬ Crosses s.config.failureSymbol) → s' = s
  /-- Else the host is asked, once, to assign the details to the symbol.  If it keeps its symbols,
  it refuses and nothing changes, or the symbol holds the details and nothing else changes. -/
  told : ∀ host, s.host = some host → Crosses s.config.failureSymbol →
    ∃ text condition, s.registry.byId? code = some condition ∧
      JsonValue.read? text = some (details code condition failure) ∧
      s' = s.assigned host s.config.failureSymbol text ∧
      (host.KeepsSymbols →
        (host.assign s.config.failureSymbol text s.memory).1 = false ∧ s' = s ∨
        (host.assign s.config.failureSymbol text s.memory).1 = true ∧
          s' = { s with memory := s.memory.setSymbol s.config.failureSymbol text } ∧
          s'.memory.symbol? s.config.failureSymbol = some text ∧
          ∀ other, other ≠ s.config.failureSymbol →
            s'.memory.symbol? other = s.memory.symbol? other)

section Report

variable {s : Session} (failure : Failure)

/-- A host that is installed is given the details, and what it answers does not matter. -/
private theorem reported_of_host {host : Host} (hhost : s.host = some host)
    (hsymbol : Crosses s.config.failureSymbol) :
    reported failure s =
      s.assigned host s.config.failureSymbol (failure.details s.registry).render := by
  have hset := setSymbol_apply host s hsymbol (Json.crosses_render (failure.details s.registry))
  rw [reported, report, bind_of_ok (show (get : SessionM Session) s = .ok s s from rfl)]
  simp only [hhost]
  split at hset
  case isTrue => rw [bind_of_ok (attempt_of_ok hset)]; rfl
  case isFalse => rw [bind_of_ok (attempt_of_failure hset)]; rfl

private theorem reported_of_unheard
    (h : ∀ host, s.host = some host → ¬ Crosses s.config.failureSymbol) :
    reported failure s = s := by
  rw [reported, report, bind_of_ok (show (get : SessionM Session) s = .ok s s from rfl)]
  cases hhost : s.host with
  | none => rfl
  | some host =>
    obtain ⟨cause, hset⟩ := setSymbol_of_not_crosses host s
      (failure.details s.registry).render (h host hhost)
    simp only
    rw [bind_of_ok (attempt_of_failure hset)]
    rfl

/-- A failure is reported under its number. -/
theorem reported_spec (hr : s.registry.Reachable) :
    Reported (failure.id s.registry) failure s (reported failure s) where
  elsewhere := by
    by_cases h : ∀ host, s.host = some host → ¬ Crosses s.config.failureSymbol
    · rw [reported_of_unheard failure h]
    · push Not at h
      obtain ⟨host, hhost, hsymbol⟩ := h
      rw [reported_of_host failure hhost hsymbol]
      rfl
  unheard := reported_of_unheard failure
  told host hhost hsymbol := by
    obtain ⟨condition, hcondition⟩ := failure.exists_condition hr
    refine ⟨(failure.details s.registry).render, condition, hcondition, read?_details hcondition,
      reported_of_host failure hhost hsymbol, fun hkeeps => ?_⟩
    rw [reported_of_host failure hhost hsymbol, Session.assigned]
    rcases hkeeps.assign s.config.failureSymbol (failure.details s.registry).render s.memory with
      hrefused | haccepted
    · rw [hrefused]
      exact .inl ⟨rfl, rfl⟩
    · rw [haccepted]
      exact .inr ⟨rfl, rfl, Memory.symbol?_setSymbol _ _ _,
        fun other hother => Memory.symbol?_setSymbol_of_ne _ _ _ hother⟩

end Report

/-! ## Every call -/

variable {α : Type}

/-- How a function ended, what the host is told of it, and the session that it is left with. -/
def Concluded (s : Session) (exit : Exit α) (s' : Session) : Except Stop α → Prop
  | .ok value => exit = .success value ∧ s' = s
  | .error (.failure cause) =>
    exit = .failure (cause.id s.registry) ∧ Reported (cause.id s.registry) cause s s'
  | .error .panic =>
    exit = .failure functionErrorId ∧ Reported functionErrorId panicFailure s s'

theorem concluded_conclude {s : Session} (hr : s.registry.Reachable)
    (hpanic : s.config.abortOnPanic = false) (result : Except Stop α) :
    Concluded s (conclude result s).1 (conclude result s).2 result := by
  rcases result with (cause | _) | value
  case ok => exact ⟨rfl, rfl⟩
  case error.failure => exact ⟨rfl, reported_spec cause hr⟩
  case error.panic =>
    have hreported := reported_spec panicFailure hr
    rw [id_panicFailure hr] at hreported
    rw [conclude, hpanic]
    exact ⟨rfl, hreported⟩

/-- **Failures are reported completely, and reporting changes no outcome.**  Without arguments or a
slot the function does not run, and nothing changes.  Else it runs once: a call depends on nothing
but how it ends where the call starts it, and goes on from the session and the slot that it leaves.
The host gets the number of its failure or panic, and is told the details if there is a way to tell
them. -/
theorem enter_reports (count : Int) (arguments : Option (List Payload)) (slot : Option ResultSlot)
    (function : Arguments → CallM α) (s : Session)
    (hafter : ∀ before args, slot = some before → passedArguments count arguments = some args →
      (endState (function args ⟨s, before⟩)).session.registry.Reachable ∧
      (endState (function args ⟨s, before⟩)).session.config.abortOnPanic = false) :
    (slot = none ∨ passedArguments count arguments = none →
      enter count arguments slot function s = (.failure functionErrorId, s, slot)) ∧
    (∀ other : Arguments → CallM α,
      (∀ before args, slot = some before → passedArguments count arguments = some args →
        other args ⟨s, before⟩ = function args ⟨s, before⟩) →
      enter count arguments slot other s = enter count arguments slot function s) ∧
    ∀ before args, slot = some before → passedArguments count arguments = some args →
      ∃ exit s', enter count arguments slot function s =
          (exit, s', some (endState (function args ⟨s, before⟩)).slot) ∧
        Concluded (endState (function args ⟨s, before⟩)).session exit s'
          (outcome (function args ⟨s, before⟩)) := by
  refine ⟨?refused, ?once, ?runs⟩
  case refused =>
    rintro (rfl | hargs)
    · rfl
    · cases slot <;> simp only [enter, hargs]
  case once =>
    intro other hsame
    cases slot with
    | none => rfl
    | some before =>
      cases hargs : passedArguments count arguments with
      | none => simp only [enter, hargs]
      | some args => simp only [enter, hargs, hsame before args rfl hargs]
  case runs =>
    rintro before args rfl hargs
    obtain ⟨hreachable, hpanic⟩ := hafter before args rfl hargs
    have hconcluded :=
      concluded_conclude hreachable hpanic (outcome (function args ⟨s, before⟩))
    refine ⟨_, _, ?_, hconcluded⟩
    unfold enter
    simp only [hargs]
    cases function args ⟨s, before⟩ with
    | ok value after => rfl
    | error stop after => rfl

/-- A function that fails with texts that have to be escaped, under a name that is not
registered. -/
def failWithControls : Arguments → CallM Unit := fun _ =>
  throw (.failure (.custom "\x00\"" "\\\n\x01é"))

/-- The host gets the number for errors of a function, and reads the texts as they were. -/
theorem enter_failWithControls :
    ∃ s' text, enter 0 none (some .empty) failWithControls { host := some .reference } =
        (.failure functionErrorId, s', some .empty) ∧
      s'.memory.symbol? ({} : Config).failureSymbol = some text ∧
      JsonValue.read? text = some (.object
        [("id", .number 6 0), ("message", .string "An error occurred in the library function."),
          ("name", .string "\x00\""), ("parameters", .string "\x00\": \\\n\x01é")]) := by
  obtain ⟨-, -, hruns⟩ := enter_reports 0 none (some .empty) failWithControls
    { host := some .reference } fun _ _ _ _ => ⟨.fresh, rfl⟩
  obtain ⟨exit, s', henter, hexit, hreported⟩ := hruns .empty ⟨[]⟩ rfl rfl
  have hid : (Failure.custom "\x00\"" "\\\n\x01é").id fresh = functionErrorId := by decide
  have hbyId : fresh.byId? functionErrorId =
      some ⟨6, "FunctionError", "An error occurred in the library function."⟩ := by decide
  -- the failure is raised in the session in which the call starts
  change exit = .failure ((Failure.custom "\x00\"" "\\\n\x01é").id fresh) at hexit
  change Reported ((Failure.custom "\x00\"" "\\\n\x01é").id fresh) _
    { host := some .reference } s' at hreported
  rw [hid] at hexit hreported
  obtain ⟨text, condition, hcondition, hread, -, hkept⟩ :=
    hreported.told .reference rfl (by decide)
  obtain rfl := Option.some.inj (hbyId.symm.trans hcondition)
  have hassigned := Host.reference_assign ({} : Config).failureSymbol text {}
  rcases hkept Host.reference_keepsSymbols with ⟨hrefused, -⟩ | ⟨-, -, hsymbol, -⟩
  · rw [hassigned] at hrefused
    cases hrefused
  · exact ⟨s', text, by rw [henter, hexit]; rfl, hsymbol, hread⟩

end Custody
