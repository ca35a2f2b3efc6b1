import Custody.Call.Arguments
import Custody.Call.Result
import Custody.Report

/-!
# Entering the library

The host calls a function of the library with a number of arguments, the arguments and a result
slot, and gets back a number: 0 if the function succeeded, and otherwise the id of the condition
that ended it.  A failure and a panic are reported; neither gets any further.
-/

namespace Custody

/-- How a call ended. -/
inductive Exit (α : Type) where
  | success (value : α)
  /-- The function did not succeed, or was not run at all. -/
  | failure (id : Int)
  | abort
  deriving DecidableEq, Repr

/-- The number that the host gets. -/
def Exit.code? {α : Type} : Exit α → Option Int
  | success _ => some Registry.successId
  | failure id => some id
  | abort => none

/-- What a panic is reported as. -/
def panicFailure : Failure := .custom "FunctionError" "library function panicked"

/-- The session after a report, which never stops. -/
def reported (failure : Failure) (s : Session) : Session :=
  match report failure s with
  | .ok _ s => s
  | .error _ s => s

/-- What the host is told of how a function ended, and the session after the report. -/
def conclude {α : Type} (outcome : Except Stop α) (s : Session) : Exit α × Session :=
  match outcome with
  | .ok value => (.success value, s)
  | .error (.failure cause) => (.failure (cause.id s.registry), reported cause s)
  | .error .panic =>
    if s.config.abortOnPanic then (.abort, s)
    else (.failure Registry.functionErrorId, reported panicFailure s)

/-- The arguments that a host passed, if there are any unless the count is 0, and the count is not
negative. -/
def passedArguments (count : Int) (arguments : Option (List Payload)) : Option Arguments :=
  if count < 0 then none
  else if count = 0 then some ⟨[]⟩
  else arguments.map fun payloads => ⟨payloads.take count.toNat⟩

/-- Run a function on behalf of the host; the session and the result slot afterwards.  Without valid
arguments or without a slot, the function is not run. -/
def enter {α : Type} (count : Int) (arguments : Option (List Payload)) (slot : Option ResultSlot)
    (function : Arguments → CallM α) (s : Session) : Exit α × Session × Option ResultSlot :=
  match slot, passedArguments count arguments with
  | some slot, some args =>
    -- the slot goes back as the function left it, however the function ended
    match function args ⟨s, slot⟩ with
    | .ok value after =>
      let (exit, s) := conclude (.ok value) after.session
      (exit, s, some after.slot)
    | .error stop after =>
      let (exit, s) := conclude (.error stop) after.session
      (exit, s, some after.slot)
  | _, _ => (.failure Registry.functionErrorId, s, slot)

end Custody
