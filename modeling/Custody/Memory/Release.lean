import Custody.Memory.Basic

/-!
# Releasing objects

Releasing a list releases what its nodes hold, and so on downward.  Each object is cleared before
its nodes are followed, so an object that is met again is already dead: lists that hold each other
and objects that are held twice are released once, and the descent ends.

`free` and `disown` are what a library calls.  Called with a handle that names no live object, they
only count the mistake.
-/

namespace Custody

namespace Memory

/-- The numbers of the objects that a node's value names, if its code says that it holds one. -/
def nestedIn (node : Node) : Option Nat :=
  (nestedCategory? node.code).bind fun _ => node.value.asHandle.id?

/-- The numbers of the objects that an object holds, in the order of its nodes. -/
def nested (m : Memory) : Object → List Nat
  | .list l => l.nodes.filterMap fun id => m.nodes[id]?.bind nestedIn
  | _ => []

/-- Release an object and what it holds, through at most `depth` levels. -/
def releaseWithin : (depth : Nat) → Memory → Nat → Memory
  | 0, m, _ => m
  | depth + 1, m, id =>
    match m.object? id with
    | none => m
    -- the object is cleared before its nodes are followed, which ends a descent around a circle
    | some object => (m.nested object).foldl (releaseWithin depth) (m.clear id)

/-- Release an object and what it holds.  Every level clears an object, so there are no more levels
than live objects. -/
def release (m : Memory) (id : Nat) : Memory := releaseWithin m.liveCount m id

/-- Free a handle. -/
def free (m : Memory) (h : Handle) : Memory :=
  match h.id? with
  | some id =>
    if (m.object? id).isSome then (m.count fun c => { c with frees := c.frees + 1 }).release id
    else m.count fun c => { c with doubleFrees := c.doubleFrees + 1 }
  | none => m.count fun c => { c with doubleFrees := c.doubleFrees + 1 }

/-- Give up one share of a handle; the last one releases the object. -/
def disown (m : Memory) (h : Handle) : Memory :=
  match h.id? with
  | some id =>
    if (m.object? id).isSome then
      let remaining := m.shares h - 1
      let lowered := (m.count fun c => { c with disowns := c.disowns + 1 }).setShares h remaining
      if remaining ≤ 0 then lowered.release id else lowered
    else m.count fun c => { c with doubleFrees := c.doubleFrees + 1 }
  | none => m.count fun c => { c with doubleFrees := c.doubleFrees + 1 }

end Memory

end Custody
