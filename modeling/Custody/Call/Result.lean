import Custody.DataList.Value

/-!
# The result of a call

A call has one slot for its result.  A setter overwrites what the slot held; nothing is released,
since a handle in the slot is the host's.

A text is not put into the slot itself.  It is kept in the session, where the next text result, of
whatever call, takes its place.
-/

namespace Custody

open Number Text

/-! ## The slot -/

inductive ResultSlot where
  | holds (value : Payload)
  /-- The text result with this number. -/
  | text (serial : Nat)
  deriving DecidableEq

/-- The slot before anything was set. -/
def ResultSlot.empty : ResultSlot := .holds .empty

/-- What the host reads from the slot.  A text can be read as long as there was no later one. -/
def ResultSlot.payload? (slot : ResultSlot) (s : Session) : Option Payload :=
  match slot with
  | holds value => some value
  | text serial => if serial = s.textResult.serial then some (.text s.textResult.bytes) else none

/-! ## What runs in a call -/

/-- A session with the result slot of the call that runs in it. -/
structure CallState where
  session : Session
  slot : ResultSlot

abbrev CallM := EStateM Stop CallState

namespace CallM

variable {α : Type}

/-- Run an action that does not see the slot. -/
def ofSession (x : SessionM α) : CallM α := fun s =>
  match x s.session with
  | .ok a session => .ok a { s with session }
  | .error stop session => .error stop { s with session }

/-! ## Setting the result -/

def set (value : Payload) : CallM Unit := modify fun s => { s with slot := .holds value }

/-- The greatest integer that a result can be. -/
def greatestInteger : Int := 0x7FFFFFFFFFFFFFFF

/-- The least integer that a result can be. -/
def leastInteger : Int := -0x8000000000000000

/-- Set an integer, clamped to what a result can be; whether it fitted. -/
def setClamped (value : Int) : CallM Bool := do
  let clamped := max leastInteger (min greatestInteger value)
  set (.integer (Int64.ofInt clamped))
  return decide (clamped = value)

/-- Set a text; a text with a NUL is refused. -/
def setText (value : String) : CallM Unit := do
  let bytes ← ofSession (SessionM.ofExcept (encodeText value))
  modify fun s =>
    let serial := s.session.textResult.serial + 1
    { session := { s.session with textResult := ⟨bytes, serial⟩ }, slot := .text serial }

def setPlain : Plain → CallM Unit
  | .boolean value => set (.boolean value)
  | .integer value => set (.integer value)
  | .real value => set (.real value)
  | .complex value => set (.complex value)
  | .text value => setText value

/-- Hand an object to the host.  The container is used up. -/
def setContainer {c : Category} (k : Container c) : CallM Unit := do
  set (← ofSession (SessionM.ofExcept k.asResult))

end CallM

end Custody
