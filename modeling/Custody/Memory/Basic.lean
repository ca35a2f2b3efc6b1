import Custody.Memory.Handle
import Custody.Memory.Object

/-!
# The memory of a host

Objects are issued one after another, and what was issued stays in the table: a released object
leaves its place empty, so its handle is never given out again and is known to be dead for ever.
The nodes of all lists are kept in one table in the same way.

The memory also counts the calls that allocate, copy, convert and release, and holds the failures
that are armed.
-/

namespace Custody

open Text

/-! ## The tables -/

/-- The place of an object that was issued.  The share count is a 64-bit integer, so it wraps around,
and it outlives the object. -/
structure Allocation where
  object : Option Object
  shares : Int64
  deriving DecidableEq

structure Node where
  /-- The list that the node was appended to. -/
  list : Nat
  name : Option Bytes
  code : Int
  value : Payload
  deriving DecidableEq

/-- How often a library asked for something. -/
structure Counters where
  allocations : Nat := 0
  clones : Nat := 0
  conversions : Nat := 0
  /-- Live objects freed. -/
  frees : Nat := 0
  /-- Shares of live objects given up. -/
  disowns : Nat := 0
  /-- Releases of handles that named no live object. -/
  doubleFrees : Nat := 0
  deriving DecidableEq, Repr

structure Memory where
  allocations : Array Allocation := #[]
  nodes : Array Node := #[]
  symbols : List (String × String) := []
  counters : Counters := {}
  /-- Refuse the next new object. -/
  failNextAllocation : Bool := false
  /-- Refuse the next copy. -/
  failNextClone : Bool := false
  failConversions : Bool := false
  deriving DecidableEq

namespace Memory

/-! ## Looking up objects -/

/-- The object of a number, if it is live. -/
def object? (m : Memory) (id : Nat) : Option Object :=
  m.allocations[id]?.bind (·.object)

/-- The live object that a handle names. -/
def find? (m : Memory) (h : Handle) : Option Object := h.id?.bind m.object?

def array? (m : Memory) (h : Handle) : Option ArrayObject :=
  match m.find? h with
  | some (.array a) => some a
  | _ => none

def image? (m : Memory) (h : Handle) : Option ImageObject :=
  match m.find? h with
  | some (.image i) => some i
  | _ => none

def list? (m : Memory) (h : Handle) : Option ListObject :=
  match m.find? h with
  | some (.list l) => some l
  | _ => none

def isLive (m : Memory) (h : Handle) : Bool := (m.find? h).isSome

def liveCount (m : Memory) : Nat := m.allocations.countP (·.object.isSome)

/-! ## Issuing and replacing objects -/

/-- Issue an object; its number is that of the objects issued before. -/
def issue (m : Memory) (object : Object) : Nat × Memory :=
  (m.allocations.size, { m with allocations := m.allocations.push ⟨some object, 0⟩ })

/-- Replace the object of a number by what `f` makes of it. -/
def modifyObject (m : Memory) (id : Nat) (f : Object → Object) : Memory :=
  { m with allocations := m.allocations.modify id fun a => { a with object := a.object.map f } }

/-- Empty the place of an object. -/
def clear (m : Memory) (id : Nat) : Memory :=
  { m with allocations := m.allocations.modify id fun a => { a with object := none } }

/-- The storage of the buffer that a handle names. -/
def storage? (m : Memory) (h : Handle) : Option Storage := (m.find? h).bind Object.storage?

/-- Replace the storage of the buffer that a handle names. -/
def setStorage (m : Memory) (h : Handle) (storage : Storage) : Memory :=
  match h.id? with
  | some id => m.modifyObject id (Object.setStorage storage)
  | none => m

def count (m : Memory) (f : Counters → Counters) : Memory := { m with counters := f m.counters }

/-! ## Shares -/

/-- The share count of what a handle names or named; 0 if it never named anything. -/
def shares (m : Memory) (h : Handle) : Int64 :=
  match h.id?.bind (m.allocations[·]?) with
  | some allocation => allocation.shares
  | none => 0

/-- Set the share count of what a handle names or named. -/
def setShares (m : Memory) (h : Handle) (shares : Int64) : Memory :=
  match h.id? with
  | some id => { m with allocations := m.allocations.modify id fun a => { a with shares } }
  | none => m

/-! ## Nodes -/

/-- The node that a handle names.  The nodes of a released list are dead with it. -/
def node? (m : Memory) (h : NodeHandle) : Option Node :=
  (h.id?.bind (m.nodes[·]?)).filter fun node => (m.list? (.ofId node.list)).isSome

/-- The number of the node that follows a node in its list. -/
def nextNode? (m : Memory) (h : NodeHandle) : Option Nat := do
  let id ← h.id?
  let node ← m.node? h
  let list ← m.list? (.ofId node.list)
  let position ← list.nodes.findIdx? (· == id)
  list.nodes[position + 1]?

/-- Put a node into the table and at the end of its list. -/
def pushNode (m : Memory) (node : Node) : Memory :=
  let pushed := { m with nodes := m.nodes.push node }
  pushed.modifyObject node.list fun
    | .list l => .list ⟨l.nodes ++ [m.nodes.size]⟩
    | object => object

/-- The category of the object that a node of this code holds. -/
def nestedCategory? (code : Int) : Option Category :=
  (ArgumentKind.ofCode? code).bind ArgumentKind.category?

/-- Whether a list may store a value under a code: scalars always, texts if there is one, and
objects if the handle names a live one of the right category.  A list does not store itself. -/
def storable (m : Memory) (list : Nat) (code : Int) (value : Payload) : Bool :=
  match ArgumentKind.ofCode? code with
  | some .boolean | some .integer | some .real | some .complex => true
  | some .text => value.asText?.isSome
  | some kind =>
    match kind.category? with
    | some category =>
      (m.find? value.asHandle).any (·.category == category)
        && !(category == .list && value.asHandle.id? == some list)
    | none => false
  | none => false

/-- Append a node to the list of a number, if the list is live and may store the value. -/
def addNode (m : Memory) (list : Nat) (name : Option Bytes) (code : Int) (value : Payload) :
    Bool × Memory :=
  match m.object? list with
  | some (.list _) =>
    if m.storable list code value then (true, m.pushNode ⟨list, name, code, value⟩) else (false, m)
  | _ => (false, m)

/-! ## Symbols -/

def setSymbol (m : Memory) (symbol value : String) : Memory :=
  { m with symbols := (symbol, value) :: m.symbols.filter (·.1 != symbol) }

/-- The value last assigned to a symbol. -/
def symbol? (m : Memory) (symbol : String) : Option String :=
  (m.symbols.find? (·.1 == symbol)).map (·.2)

end Memory

end Custody
