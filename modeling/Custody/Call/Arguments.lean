import Custody.Container.Dispatch

/-!
# The arguments of a call

The host passes the arguments as payloads, which do not say what they hold: it is the library that
knows how to read each of them.
-/

namespace Custody

open SessionM Number

/-- The arguments of a call. -/
structure Arguments where
  payloads : List Payload
  deriving DecidableEq

namespace Arguments

variable (args : Arguments)

def count : Nat := args.payloads.length

/-- The argument at an index. -/
def payload (index : Nat) : Except Failure Payload :=
  match args.payloads[index]? with
  | some p => .ok p
  | none => .error (.argumentIndex index args.count)

/-! ## Scalars and texts -/

def boolean (index : Nat) : Except Failure Bool := (args.payload index).map (·.asBoolean)

def integer (index : Nat) : Except Failure Int64 := (args.payload index).map (·.asInteger)

def real (index : Nat) : Except Failure Double := (args.payload index).map (·.asReal)

def complex (index : Nat) : Except Failure (Complex .double) :=
  (args.payload index).map (·.asComplex)

def text (index : Nat) : Except Failure String := do
  decodeText (← args.payload index).asText?

/-! ## Objects -/

/-- The argument at an index as an object, wrapped under a policy. -/
def container (c : Category) (index : Nat) (passing : Passing) : SessionM (Container c) := do
  let p ← ofExcept (args.payload index)
  Container.wrap c p.asHandle passing

variable {b : BufferCategory}

/-- The argument at an index as a buffer of a known kind, wrapped under a policy. -/
def buffer (kind : b.Kind) (index : Nat) (passing : Passing) : SessionM (Buffer kind) := do
  (← args.container (.buffer b) index passing).intoBuffer kind

/-- The element kind of the argument at an index.  The argument stays the host's. -/
def elementKind (b : BufferCategory) (index : Nat) : SessionM b.Kind := do
  let k ← args.container (.buffer b) index .constant
  let m ← memory
  match k.elementKind? m with
  | some kind => return kind
  | none => fail (.unknownElement (.buffer b) (k.code m))

/-- Run an operation on the argument at an index, at the kind of its elements.  The kind is looked
up before the argument is wrapped, so an unknown kind leaves the argument alone. -/
def operate {α : Type} (b : BufferCategory) (index : Nat) (passing : Passing)
    (operation : (kind : b.Kind) → Buffer kind → SessionM α) : SessionM α := do
  let _ ← args.elementKind b index
  let k ← args.container (.buffer b) index passing
  match ← k.dispatch operation with
  | .ok value => return value
  | .error refused => refused.raise

end Arguments

end Custody
