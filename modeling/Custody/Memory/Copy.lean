import Custody.Memory.Basic

/-!
# Deep copies

A copy of a list holds copies of everything that the list holds, and so on downward.  The copy of
the list is issued first and empty; then each node is copied in turn, what it holds before the
node itself.  Where something cannot be copied, the copying stops, and what was issued stays
issued.
-/

namespace Custody

namespace Memory

/-- Copy one node to the end of the list `target`, copying what it holds by `copy`. -/
def copyNode (copy : Nat → Memory → Option Nat × Memory) (target : Nat) (node : Node) (m : Memory) :
    Bool × Memory :=
  match nestedCategory? node.code with
  | none => (true, m.pushNode { node with list := target })
  | some _ =>
    match node.value.asHandle.id? with
    | none => (false, m)
    | some held =>
      match copy held m with
      | (none, m) => (false, m)
      | (some made, m) =>
        (true, m.pushNode { node with list := target, value := .handle (.ofId made) })

/-- Copy nodes to the end of the list `target`, up to the first that cannot be copied. -/
def copyNodes (copy : Nat → Memory → Option Nat × Memory) (target : Nat) :
    List Nat → Memory → Bool × Memory
  | [], m => (true, m)
  | id :: rest, m =>
    match m.nodes[id]? with
    | none => (false, m)
    | some node =>
      match copyNode copy target node m with
      | (false, m) => (false, m)
      | (true, m) => copyNodes copy target rest m

/-- Copy an object and what it holds, through at most `depth` levels. -/
def copyWithin : (depth : Nat) → Nat → Memory → Option Nat × Memory
  | 0, _, m => (none, m)
  | depth + 1, id, m =>
    match m.object? id with
    | none => (none, m)
    | some (.list l) =>
      -- the new list comes first, so it has a lower number than all that is copied into it
      let (made, m) := m.issue (.list ⟨[]⟩)
      match copyNodes (copyWithin depth) made l.nodes m with
      | (true, m) => (some made, m)
      -- what was copied so far stays, and nobody has its handle
      | (false, m) => (none, m)
    | some object =>
      let (made, m) := m.issue object
      (some made, m)

/-- Copy an object and what it holds.  A chain of lists, each holding the next, has no more links
than there are objects; lists that hold each other in a circle run out of levels and are not
copied. -/
def copy (m : Memory) (id : Nat) : Option Nat × Memory := copyWithin m.allocations.size id m

end Memory

end Custody
