import Custody.Proofs.Estate.Trace
import Custody.Proofs.Memory.NodeKinds
import Mathlib.Logic.Relation

/-!
# All that a host does

A host does what its table is called for, with whatever arguments, and it makes objects of its own,
appends to any list, counts shares and arms failures (`Memory.Serves`).  It is not said here who
calls for what, or why: a caller may append a payload that it never looked at under any code, and
overwrite the elements of any buffer.

Each of these keeps a memory orderly (`Memory.Serves.upholds`), and so does any sequence of them
(`Memory.Attains.orderly`).  What a library asks for while it makes a container is such a sequence
(`Memory.admits_attains`).
-/

namespace Custody

namespace Memory

variable {m m' : Memory}

/-! ## One thing that a host does -/

/-- One entry of the table is called, with any arguments, or the host does something by itself. -/
inductive Serves (m : Memory) : Memory → Prop where
  | newArray (category : ArrayCategory) (code : Int) (extents : List Int) :
    Serves m (Host.reference.newArray category code extents m).2
  | newImage (request : ImageRequest) : Serves m (Host.reference.newImage request m).2
  | newList : Serves m (Host.reference.newList m).2
  /-- A handle is copied, if what it names is accepted. -/
  | cloneIf (accepts : Object → Bool) (h : Handle) : Serves m (m.cloneIf accepts h).2
  | convertArray (h : Handle) (code method : Int) (tolerance : Number.Double) :
    Serves m (Host.reference.convertArray h code method tolerance m).2
  | convertImage (h : Handle) (code : Int) (interleaved : Bool) :
    Serves m (Host.reference.convertImage h code interleaved m).2
  | free (h : Handle) : Serves m (m.free h)
  | disown (h : Handle) : Serves m (m.disown h)
  | setStorage (h : Handle) (storage : Storage) : Serves m (m.setStorage h storage)
  /-- Any payload is appended to any list, under any name and any code. -/
  | addNode (list : Nat) (name : Option Text.Bytes) (code : Int) (value : Payload) :
    Serves m (m.addNode list name code value).2
  | build {m' : Memory} (h : m.Builds m') : Serves m m'
  /-- Something happens that concerns neither objects nor nodes, as when failures are armed, shares
  are counted or symbols are set. -/
  | aside {m' : Memory} (objects : ∀ id, m'.object? id = m.object? id) (nodes : m'.nodes = m.nodes)
    (size : m'.allocations.size = m.allocations.size) : Serves m m'

/-- Whatever a host does keeps the memory orderly, and no number changes its category. -/
theorem Serves.upholds (h : m.Serves m') (hm : m.Orderly) : m.Upholds m' := by
  cases h with
  | newArray category code extents =>
    exact .of_evolves hm (evolves_newArray m category code extents)
  | newImage request => exact .of_evolves hm (evolves_newImage m request)
  | newList => exact .of_evolves hm (evolves_newList m)
  | cloneIf accepts h => exact upholds_cloneIf hm accepts h
  | convertArray h code method tolerance =>
    exact .of_evolves hm (evolves_convertArray m h code method tolerance)
  | convertImage h code interleaved =>
    exact .of_evolves hm (evolves_convertImage m h code interleaved)
  | free h =>
    obtain ⟨gone, -, hevolves⟩ := evolves_free m h
    exact .of_evolves hm hevolves
  | disown h =>
    obtain ⟨gone, -, hevolves⟩ := evolves_disown m h
    exact .of_evolves hm hevolves
  | setStorage h storage => exact .of_evolves hm (.rewrite .refl h storage)
  | addNode list name code value =>
    by_cases hlist : ∃ l, m.object? list = some (.list l)
    · obtain ⟨l, hl⟩ := hlist
      rw [addNode_of_list hl]
      split
      case isTrue hstorable =>
        have hnode : m.Proper ⟨list, name, code, value⟩ := .of_storable hl hstorable
        exact .pushNode hm hnode
      case isFalse => exact .refl hm
    · rw [addNode_of_no_list (not_exists.mp hlist)]
      exact .refl hm
  | build h => exact .of_evolves hm h.evolves
  | aside objects nodes size => exact .of_evolves hm (.aside .refl objects nodes size)

/-! ## Any number of things -/

/-- The host does any number of things. -/
abbrev Attains (m m' : Memory) : Prop := Relation.ReflTransGen Serves m m'

theorem Attains.upholds (h : m.Attains m') (hm : m.Orderly) : m.Upholds m' := by
  induction h with
  | refl => exact .refl hm
  | tail _ last ih => exact ih.trans (last.upholds ih.orderly)

/-- Making a container comes to a number of requests. -/
theorem admits_attains : Admits Memory.Attains where
  refl _ := .refl
  trans h h' := h.trans h'
  newArray category code extents _ := .single (.newArray category code extents)
  newImage request _ := .single (.newImage request)
  newList _ := .single .newList
  cloneIf accepts h _ := .single (.cloneIf accepts h)
  convertImage h code interleaved _ := .single (.convertImage h code interleaved)
  write t hhost index values m := by
    rcases t.writeIn_cases hhost index values m with hsame | ⟨id, _, storage, -, -, hwritten⟩
    · rw [hsame]
    · rw [hwritten]
      exact .single (.setStorage _ _)
  free h _ := .single (.free h)
  disown h _ := .single (.disown h)

end Memory

end Custody
