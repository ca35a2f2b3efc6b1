import Custody.Proofs.Failure.Registry
import Custody.Proofs.Session
import Custody.Call.Guard

/-!
# The number that a call gives back

The host learns from one number whether a call succeeded.  The number of a failure is looked up in
the registry by the name of the failure, and the registry lists success as well, so the two can only
be told apart where no failure has that name.

- `enter_eq_conclude`: a call whose arguments are there ends as its function does.
- `enter_gives_success_iff`: a call gives the number of success exactly if its function gave a value,
  or failed with a condition of the name of success.
-/

namespace Custody

open Registry

/-! ## How a function ends -/

/-- The value of an action, or why it stopped. -/
def outcome {α : Type} : EStateM.Result Stop CallState α → Except Stop α
  | .ok value _ => .ok value
  | .error stop _ => .error stop

variable {α : Type} {count : Int} {arguments : Option (List Payload)} {slot : ResultSlot}
  {function : Arguments → CallM α} {s : Session}

/-- With valid arguments, the number is that of how the function ended, in the session that it
left. -/
theorem enter_eq_conclude {args : Arguments} (hargs : passedArguments count arguments = some args) :
    (enter count arguments (some slot) function s).1 =
      (conclude (outcome (function args ⟨s, slot⟩))
        (endState (function args ⟨s, slot⟩)).session).1 := by
  unfold enter
  simp only [hargs]
  cases function args ⟨s, slot⟩ with
  | ok value after => rfl
  | error stop after => rfl

theorem enter_of_no_arguments (hargs : passedArguments count arguments = none) :
    (enter count arguments (some slot) function s).1 = .failure functionErrorId := by
  unfold enter
  simp only [hargs]

/-! ## What the host is told -/

/-- The number of an ended function.  The host gets one unless the process ends with a panic. -/
theorem code?_conclude (result : Except Stop α) {s : Session}
    (hreachable : s.registry.Reachable) (hpanic : s.config.abortOnPanic = false) :
    ∃ code, (conclude result s).1.code? = some code ∧
      (code = successId ↔
        (∃ value, result = .ok value) ∨
          ∃ message, result = .error (.failure (.custom "NoError" message))) := by
  rcases result with (cause | _) | value
  case ok => exact ⟨successId, rfl, by simp⟩
  case error.panic =>
    -- a panic is reported as a failure of the library, whose number is fixed
    refine ⟨functionErrorId, by simp [conclude, hpanic, Exit.code?], ?_⟩
    simp [functionErrorId, successId]
  case error.failure =>
    refine ⟨cause.id s.registry, rfl, ?_⟩
    rw [Failure.id_eq_successId_iff hreachable]
    constructor
    · intro hname
      by_cases hcustom : ∃ name message, cause = .custom name message
      · obtain ⟨name, message, rfl⟩ := hcustom
        obtain rfl : name = "NoError" := hname
        exact .inr ⟨message, rfl⟩
      · -- what the library raises by itself has a negative id
        have hneg := Failure.id_neg hreachable fun name message h => hcustom ⟨name, message, h⟩
        rw [(Failure.id_eq_successId_iff hreachable).mpr hname] at hneg
        exact absurd hneg (by decide)
    · rintro (⟨value, hvalue⟩ | ⟨message, hmessage⟩)
      · cases hvalue
      · cases hmessage
        rfl

/-- **A call gives the number of success exactly if its function gave a value, or failed with a
condition of the name of success.**  It always gives a number, whatever the registry has come to hold,
as long as a panic does not end the process. -/
theorem enter_gives_success_iff (count : Int) (arguments : Option (List Payload))
    (slot : ResultSlot) (function : Arguments → CallM α) (s : Session)
    (hafter : ∀ args, passedArguments count arguments = some args →
      (endState (function args ⟨s, slot⟩)).session.registry.Reachable ∧
      (endState (function args ⟨s, slot⟩)).session.config.abortOnPanic = false) :
    ∃ code, (enter count arguments (some slot) function s).1.code? = some code ∧
      (code = successId ↔ ∃ args, passedArguments count arguments = some args ∧
        ((∃ value, outcome (function args ⟨s, slot⟩) = .ok value) ∨
          ∃ message,
            outcome (function args ⟨s, slot⟩) = .error (.failure (.custom "NoError" message)))) := by
  cases hargs : passedArguments count arguments with
  | none =>
    refine ⟨functionErrorId, by rw [enter_of_no_arguments hargs]; rfl, ?_⟩
    simp [functionErrorId, successId]
  | some args =>
    obtain ⟨hreachable, hpanic⟩ := hafter args hargs
    obtain ⟨code, hcode, hiff⟩ :=
      code?_conclude (outcome (function args ⟨s, slot⟩)) hreachable hpanic
    refine ⟨code, by rw [enter_eq_conclude hargs, hcode], hiff.trans ?_⟩
    simp only [Option.some.injEq, exists_eq_left']

/-- A function that fails with the host's condition of success. -/
def failWithSuccess : Arguments → CallM Unit := fun _ =>
  throw (.failure (Registry.fresh.failure "NoError"))

/-- A call that fails and gives the number of success. -/
theorem enter_failWithSuccess :
    (∀ args, passedArguments 0 none = some args →
      (endState (failWithSuccess args ⟨{}, .empty⟩)).session.registry.Reachable ∧
      (endState (failWithSuccess args ⟨{}, .empty⟩)).session.config.abortOnPanic = false) ∧
    (∃ message, outcome (failWithSuccess ⟨[]⟩ ⟨{}, .empty⟩) =
      .error (.failure (.custom "NoError" message))) ∧
    (enter 0 none (some .empty) failWithSuccess {}).1.code? = some successId := by
  have hafter : ∀ args, passedArguments 0 none = some args →
      (endState (failWithSuccess args ⟨{}, .empty⟩)).session.registry.Reachable ∧
      (endState (failWithSuccess args ⟨{}, .empty⟩)).session.config.abortOnPanic = false :=
    fun _ _ => ⟨.fresh, rfl⟩
  have hfailure : Registry.fresh.failure "NoError" = .custom "NoError" "No errors occurred." := by
    decide
  have hfails : outcome (failWithSuccess ⟨[]⟩ ⟨{}, .empty⟩) =
      .error (.failure (.custom "NoError" "No errors occurred.")) := by
    rw [failWithSuccess, hfailure]
    rfl
  obtain ⟨code, hcode, hiff⟩ :=
    enter_gives_success_iff 0 none .empty failWithSuccess {} hafter
  have hsuccess : code = successId := hiff.mpr ⟨⟨[]⟩, rfl, .inr ⟨_, hfails⟩⟩
  exact ⟨hafter, ⟨_, hfails⟩, by rw [hcode, hsuccess]⟩

end Custody
