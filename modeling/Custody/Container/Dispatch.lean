import Custody.Container.Buffer

/-!
# Running an operation at the element kind of a container

An operation that is written for every element kind is run at the one that the container says it
has. The code is looked up once.  Where the library does not know it, the operation is not run and
the container comes back as it was.
-/

namespace Custody

open SessionM Text

/-- Why a dispatch gave no value. -/
inductive DispatchFailure (b : BufferCategory) where
  /-- The code is unknown; here is the container. -/
  | unknownCode (code : Int) (container : Container (.buffer b))
  /-- The operation failed; it has the container. -/
  | operation (cause : Failure)

namespace DispatchFailure

variable {b : BufferCategory}

def cause : DispatchFailure b → Failure
  | unknownCode code _ => .unknownElement (.buffer b) code
  | operation cause => cause

/-- The container, if it came back. -/
def container? : DispatchFailure b → Option (Container (.buffer b))
  | unknownCode _ k => some k
  | operation _ => none

/-- The failure as a text, if the container came back. -/
def text? : DispatchFailure b → Option String
  | unknownCode code k =>
    some <| record "DispatchError"
      [("error", record (Failure.unknownElement (.buffer b) code).identifier
          [("container", (Category.buffer b).name), ("code", toString code)]),
       ("container", wrapped "Some" k.text)]
  | operation _ => none

/-- Stop with the failure; a container that came back is dropped. -/
def raise {α : Type} : DispatchFailure b → SessionM α
  | unknownCode code k => do
    k.drop
    fail (.unknownElement (.buffer b) code)
  | operation cause => fail cause

end DispatchFailure

/-- Run an operation on a container, at the kind of its elements. -/
def Container.dispatch {b : BufferCategory} {α : Type} (k : Container (.buffer b))
    (operation : (kind : b.Kind) → Buffer kind → SessionM α) :
    SessionM (Except (DispatchFailure b) α) := do
  let m ← memory
  match k.elementKind? m with
  | none => return .error (.unknownCode (k.code m) k)
  | some kind =>
    -- the operation has the container from here on, also if it fails
    match ← attempt (operation kind ⟨k⟩) with
    | .ok value => return .ok value
    | .error cause => return .error (.operation cause)

end Custody
