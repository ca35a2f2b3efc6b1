import Custody.Call.Guard
import Custody.DataList.Append

/-!
# The workbench

A workbench is a session together with containers and handles that have names, so that what a
library does can be told step by step: make a container and name it, take it by its name and hand
it to an operation, look at what is left.

A slot holds one container.  Whoever takes a container empties the slot first, so if the rest of
the step fails, the container is gone and has been released as its owner says.
-/

namespace Custody

/-! ## The workbench -/

/-- The call of a library function that is under way. -/
structure Frame where
  args : Arguments
  slot : ResultSlot := .empty
  /-- What the result was last set to, if it was. -/
  kind : Option ArgumentKind := none

/-- A session with named containers and handles. -/
structure Workbench where
  session : Session := {}
  /-- The containers in their slots, in increasing order of the names. -/
  slots : List (String × AnyContainer) := []
  handles : List (String × Handle) := []
  frame : Option Frame := none

/-- Why a step was refused before the library was asked. -/
inductive Refusal where
  /-- The step is not described completely. -/
  | malformed
  /-- There is no such kind, policy or method. -/
  | unknownName
  /-- The category has no such elements. -/
  | unknownElement
  /-- There is no container of that name, or it is of another category. -/
  | noContainer
  | unknownHandle
  | noNode
  /-- There is no such step here. -/
  | misplaced
  deriving DecidableEq, Repr

/-- Why a step gave no value. -/
inductive Interruption where
  | refused (reason : Refusal)
  | stopped (stop : Stop)
  deriving DecidableEq, Repr

/-- What runs on a workbench. -/
abbrev Work := EStateM Interruption Workbench

namespace Work

variable {α : Type}

/-! ## Running the library -/

def refuse (reason : Refusal) : Work α := throw (.refused reason)

/-- Go on with a value, or refuse the step. -/
def orRefuse (reason : Refusal) : Option α → Work α
  | some a => pure a
  | none => refuse reason

def act (x : SessionM α) : Work α := fun w =>
  match x w.session with
  | .ok a session => .ok a { w with session }
  | .error stop session => .error (.stopped stop) { w with session }

/-- Go on with a value, or stop with the failure. -/
def ofExcept (x : Except Failure α) : Work α := act (SessionM.ofExcept x)

def session : Work Session := return (← get).session

def modifySession (f : Session → Session) : Work Unit :=
  modify fun w => { w with session := f w.session }

def memory : Work Memory := return (← session).memory

def panic : Work α := throw (.stopped .panic)

/-! ## Slots -/

/-- Put a container into a slot, in place of the one that is there. -/
def insertSlot (name : String) (k : AnyContainer) :
    List (String × AnyContainer) → List (String × AnyContainer)
  | [] => [(name, k)]
  | (other, present) :: rest =>
    if name < other then (name, k) :: (other, present) :: rest
    else if name = other then (name, k) :: rest
    else (other, present) :: insertSlot name k rest

def find (name : String) : Work AnyContainer := do
  orRefuse .noContainer ((← get).slots.lookup name)

def take (name : String) : Work AnyContainer := do
  let k ← find name
  modify fun w => { w with slots := w.slots.filter (·.1 != name) }
  return k

def drop (k : AnyContainer) : Work Unit := act k.2.drop

/-- Put a container into a slot and drop the one that was there; without a slot, drop it at once. -/
def store (slot : Option String) (k : AnyContainer) : Work Unit := do
  match slot with
  | none => drop k
  | some name =>
    let old := (← get).slots.lookup name
    modify fun w => { w with slots := insertSlot name k w.slots }
    old.forM drop

/-- Drop all containers, in the order of their names. -/
def dropAll : Work Unit := do
  let slots := (← get).slots
  modify fun w => { w with slots := [] }
  slots.forM fun slot => drop slot.2

/-- Empty the container of a slot, which stays there; its handle. -/
def abandon (name : String) : Work Handle := do
  let k ← find name
  modify fun w => { w with slots := insertSlot name ⟨k.1, k.2.emptied⟩ w.slots }
  return k.2.handle

def findList (name : String) : Work (Container .list) := do
  match ← find name with
  | ⟨.list, k⟩ => return k
  | ⟨.buffer _, _⟩ => refuse .noContainer

/-- Take the array or image of a slot.  A list is taken too, and dropped. -/
def takeBuffer (name : String) : Work ((b : BufferCategory) × Container (.buffer b)) := do
  match ← take name with
  | ⟨.buffer b, k⟩ => return ⟨b, k⟩
  | ⟨.list, k⟩ =>
    drop ⟨.list, k⟩
    refuse .noContainer

/-! ## Handles -/

def findHandle (name : String) : Work Handle := do
  orRefuse .unknownHandle ((← get).handles.lookup name)

def nameHandle (name : Option String) (h : Handle) : Work Handle := do
  name.forM fun name =>
    modify fun w => { w with handles := (name, h) :: w.handles.filter (·.1 != name) }
  return h

/-- Let the host make an object and name its handle; it is a mistake to ask for an impossible one.
-/
def build (name : Option String) (f : Memory → Option Handle × Memory) : Work Handle := do
  match ← act (SessionM.onMemory f) with
  | some h => nameHandle name h
  | none => panic

/-! ## Lists -/

/-- Append an item to the list of a slot.  Where there is no such list, the item is dropped. -/
def push (list : String) (name : Option String) (item : Item) : Work (Container .list) := do
  match (← get).slots.lookup list, item with
  | some ⟨.list, k⟩, item =>
    act (k.push name item)
    return k
  | _, .container (c := c) k =>
    drop ⟨c, k⟩
    refuse .noContainer
  | _, .plain _ => refuse .noContainer

end Work

end Custody
