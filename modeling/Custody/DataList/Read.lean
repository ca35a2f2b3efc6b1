import Custody.DataList.Value

/-!
# Reading a list

The nodes of a list are visited from the first to the last.  A node says what it holds by a code;
the host may know codes that the library cannot read.

Objects that a node holds are seen as views: containers whose handle the host keeps.
-/

namespace Custody

open SessionM Text

/-! ## Nodes -/

/-- A node of a list, with the host of the list. -/
structure DataNode where
  handle : NodeHandle
  host : Host

namespace DataNode

/-- The node of a handle that is not null. -/
def adopt (host : Host) (h : NodeHandle) : Except Failure DataNode :=
  if h.isNull then .error .nullNode else .ok ⟨h, host⟩

/-- The node of a handle of the installed host. -/
def wrap (h : NodeHandle) : SessionM DataNode := do
  ofExcept (adopt (← installedHost) h)

variable (n : DataNode) (m : Memory)

def name : Except Failure (Option String) :=
  match n.host.nodeName n.handle m with
  | none => .error .unreadableNode
  | some none => .ok none
  | some (some bytes) => (decodeText (some bytes)).map some

def code : Int := n.host.nodeCode n.handle m

/-- The kind of what a node holds, if the library knows its code. -/
def kind? : Option ArgumentKind := ArgumentKind.ofCode? (n.code m)

def value : Except Failure NodeValue :=
  match n.host.nodeValue n.handle m with
  | none => .error .unreadableNode
  | some stored =>
    match n.kind? m with
    | none => .error (.unstorable (n.code m))
    | some kind =>
      match kind.category?, Plain.read kind stored with
      | some c, _ => (Container.adopt c n.host stored.asHandle .host).map .view
      | none, some plain => plain.map .plain
      | none, none => .error (.unstorable (n.code m))

/-- What a node holds, if it is of the kind asked for. -/
def valueAs (kind : ArgumentKind) : Except Failure NodeValue :=
  if n.code m = kind.code then n.value m else .error (.nodeMismatch kind (n.code m))

/-- The node that follows, if any. -/
def next : Option DataNode := (adopt n.host (n.host.nextNode n.handle m)).toOption

def text : String :=
  record "DataNode" [("raw", address n.handle.addr), ("type_code", toString (n.code m))]

end DataNode

/-! ## Lists -/

/-- The nodes from a handle on, at most `limit` of them. -/
def nodesFrom (host : Host) (m : Memory) : (limit : Nat) → NodeHandle → List DataNode
  | 0, _ => []
  | limit + 1, h =>
    if h.isNull then [] else ⟨h, host⟩ :: nodesFrom host m limit (host.nextNode h m)

namespace Container

variable (k : Container .list) (m : Memory)

def nodeCount : Int := k.ask 0 fun host h => host.listLength h m

def firstNode : NodeHandle := k.ask .null fun host h => host.firstNode h m

def lastNode : NodeHandle := k.ask .null fun host h => host.lastNode h m

def front : Option DataNode := (DataNode.adopt k.host (k.firstNode m)).toOption

def back : Option DataNode := (DataNode.adopt k.host (k.lastNode m)).toOption

/-- All nodes, in their order.  No list has more nodes than there are. -/
def nodes : List DataNode := nodesFrom k.host m m.nodes.size (k.firstNode m)

/-- The names of all nodes, if every name can be read. -/
def names : Except Failure (List (Option String)) := (k.nodes m).mapM (·.name m)

/-- The values of all nodes, if every value can be read. -/
def values : Except Failure (List NodeValue) := (k.nodes m).mapM (·.value m)

end Container

/-! ## Views -/

/-- A view as a text, given what it shows. -/
def viewText (shown : String) : String := wrapped "Borrowed" shown

end Custody
