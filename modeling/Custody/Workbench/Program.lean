import Custody.Workbench.Basic

/-!
# Programs

A program is a library function that is told step by step.  It runs on the workbench, as the body
of a call: its steps see the arguments and set the result.  It ends at the first failure of the
library, unless the step bears failures, and at the first panic; steps that are refused do not end
it.
-/

namespace Custody

/-- A step of a program, which gives an entry for the log and says whether the library stopped. -/
structure Step (β : Type) where
  run : Work (β × Option Stop)
  /-- Whether the program goes on after a failure. -/
  bears : Bool

/-- How a call of a program went. -/
structure CallReport (β : Type) where
  /-- How the library function ended. -/
  outcome : Except Stop Unit
  /-- How the call ended for the host. -/
  exit : Exit Unit
  log : List β
  frame : Frame

namespace Work

variable {α β : Type}

def frame? : Work (Option Frame) := return (← get).frame

def frame : Work Frame := do orRefuse .misplaced (← frame?)

/-- Run an action of the call that is under way. -/
def actCall (kind : ArgumentKind) (x : CallM α) : Work α := do
  let f ← frame
  fun w =>
    match x ⟨w.session, f.slot⟩ with
    | .ok a after =>
      .ok a { w with session := after.session, frame := some { f with slot := after.slot, kind } }
    | .error stop after => .error (.stopped stop) { w with session := after.session }

def result : Work Payload := do
  return ((← frame).slot.payload? (← session)).getD .empty

/-- Run the steps of a program; what stopped it, if anything did.  A step that panics leaves no
entry. -/
def runSteps : List (Step β) → Work (List β × Except Stop Unit)
  | [] => pure ([], .ok ())
  | step :: rest => do
    match ← step.run with
    | (_, some .panic) => return ([], .error .panic)
    | (entry, some (.failure cause)) =>
      if step.bears then
        let (log, outcome) ← runSteps rest
        return (entry :: log, outcome)
      else return ([entry], .error (.failure cause))
    | (entry, none) =>
      let (log, outcome) ← runSteps rest
      return (entry :: log, outcome)

/-- Run a program in a frame.  `guarded` tells whether the host calls it, which lets failures and
panics get no further. -/
def callProgram (guarded : Bool) (start : Frame) (program : List (Step β)) :
    Work (CallReport β) := do
  modify fun w => { w with frame := some start }
  let (log, outcome) ← runSteps program
  -- the frame is left before the outcome is reported
  let last ← frame
  modify fun w => { w with frame := none }
  if guarded then
    let (exit, after) := conclude outcome (← session)
    modifySession fun _ => after
    return ⟨outcome, exit, log, last⟩
  else
    match outcome with
    | .error .panic => panic
    | _ => return ⟨outcome, .success (), log, last⟩

end Work

end Custody
