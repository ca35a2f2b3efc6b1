import Custody.Proofs.Memory.Inventory

/-!
# What stays of an object

Whatever happens to a memory, no object changes but in its elements, and a list only gets more
nodes.  An object may die, and then its number stays without one; a number is issued once.

- `Object.Continues`, `Memory.Continues`: what stays of an object, and of all objects and nodes.
- `Inventory.Step.continues`: every elementary change is of this kind.
-/

namespace Custody

open Memory

/-! ## What stays -/

/-- Of a buffer all stays but its elements, in storage of the same size.  A list keeps its nodes. -/
inductive Object.Continues : Object → Object → Prop where
  | array (a : ArrayObject) {storage : Storage} (size : storage.size = a.storage.size) :
    Continues (.array a) (.array { a with storage })
  | image (i : ImageObject) {storage : Storage} (size : storage.size = i.storage.size) :
    Continues (.image i) (.image { i with storage })
  | list (l : ListObject) (more : List Nat) : Continues (.list l) (.list ⟨l.nodes ++ more⟩)

namespace Object.Continues

theorem refl (object : Object) : object.Continues object := by
  cases object with
  | array a => exact .array a rfl
  | image i => exact .image i rfl
  | list l =>
    have hsame := Continues.list l []
    rwa [List.append_nil] at hsame

theorem trans {a b c : Object} (h : a.Continues b) (h' : b.Continues c) : a.Continues c := by
  cases h with
  | array a size =>
    cases h' with
    | array _ size' => exact .array a (size'.trans size)
  | image i size =>
    cases h' with
    | image _ size' => exact .image i (size'.trans size)
  | list l more =>
    cases h' with
    | list _ evenMore =>
      rw [List.append_assoc]
      exact .list l (more ++ evenMore)

theorem setStorage {object : Object} {storage storage' : Storage}
    (hstorage : object.storage? = some storage) (hsize : storage'.size = storage.size) :
    object.Continues (object.setStorage storage') := by
  cases object with
  | list l => cases hstorage
  | array a =>
    obtain rfl := Option.some.inj hstorage
    exact .array a hsize
  | image i =>
    obtain rfl := Option.some.inj hstorage
    exact .image i hsize

end Object.Continues

namespace Memory

/-- Numbers stay given out, what is live now was live before under the same number and continues,
and nodes stay as they are. -/
structure Continues (m m' : Memory) : Prop where
  size : m.allocations.size ≤ m'.allocations.size
  object : ∀ id < m.allocations.size, ∀ object', m'.object? id = some object' →
    ∃ object, m.object? id = some object ∧ object.Continues object'
  nodes : m.NodesIn m'

namespace Continues

variable {m m' m'' : Memory}

theorem refl (m : Memory) : m.Continues m :=
  ⟨le_rfl, fun _ _ object hobject => ⟨object, hobject, .refl object⟩, fun _ _ hnode => hnode⟩

theorem trans (h : m.Continues m') (h' : m'.Continues m'') : m.Continues m'' where
  size := h.size.trans h'.size
  object id hid object'' hobject := by
    obtain ⟨object', hobject', hlast⟩ := h'.object id (hid.trans_le h.size) object'' hobject
    obtain ⟨object, hobject, hfirst⟩ := h.object id hid object' hobject'
    exact ⟨object, hobject, hfirst.trans hlast⟩
  nodes n node hnode := h'.nodes n node (h.nodes n node hnode)

/-- What is dead stays dead. -/
theorem dead (h : m.Continues m') {id : Nat} (hid : id < m.allocations.size)
    (hdead : m.object? id = none) : m'.object? id = none := by
  rw [Option.eq_none_iff_forall_ne_some]
  intro object' hobject'
  obtain ⟨object, hobject, -⟩ := h.object id hid object' hobject'
  rw [hdead] at hobject
  cases hobject

/-- Objects may die, but none changes. -/
theorem of_subset (hobjects : ∀ id object, m'.object? id = some object → m.object? id = some object)
    (hnodes : m'.nodes = m.nodes) (hsize : m'.allocations.size = m.allocations.size) :
    m.Continues m' where
  size := hsize.ge
  object id _ object hobject := ⟨object, hobjects id object hobject, .refl object⟩
  nodes n node hnode := by rwa [hnodes]

theorem issue (m : Memory) (object : Object) : m.Continues (m.issue object).2 where
  size := by simp
  object id hid other hother := by
    rw [object?_issue, if_neg (by omega)] at hother
    exact ⟨other, hother, .refl other⟩
  nodes _ _ hnode := hnode

theorem setStorage {id : Nat} {object : Object} {storage storage' : Storage}
    (hobject : m.object? id = some object) (hstorage : object.storage? = some storage)
    (hsize : storage'.size = storage.size) : m.Continues (m.setStorage (.ofId id) storage') where
  size := by simp
  object other _ object' hobject' := by
    rw [object?_setStorage, Handle.id?_ofId] at hobject'
    split at hobject'
    case isTrue hsame =>
      obtain rfl := Option.some.inj hsame
      rw [hobject, Option.map_some] at hobject'
      obtain rfl := Option.some.inj hobject'
      exact ⟨object, hobject, .setStorage hstorage hsize⟩
    case isFalse => exact ⟨object', hobject', .refl object'⟩
  nodes n node hnode := by rwa [nodes_setStorage]

/-- The list of the node gets it at its end. -/
theorem pushNode (m : Memory) (node : Node) : m.Continues (m.pushNode node) where
  size := by simp
  object id _ object' hobject' := by
    rw [object?_pushNode] at hobject'
    split at hobject'
    case isTrue =>
      -- a node of what is no list changes nothing
      obtain ⟨object, hobject, rfl⟩ := Option.map_eq_some_iff.mp hobject'
      refine ⟨object, hobject, ?_⟩
      cases object with
      | list l => exact .list l [m.nodes.size]
      | array a => exact .refl _
      | image i => exact .refl _
    case isFalse => exact ⟨object', hobject', .refl object'⟩
  nodes n other hnode := by
    have hn : n < m.nodes.size := (Array.getElem?_eq_some_iff.mp hnode).1
    rw [nodes_pushNode, Array.getElem?_push, if_neg (by omega), hnode]

end Continues

end Memory

/-- Every elementary change keeps what a handle denotes. -/
theorem Inventory.Step.continues {strict : Prop} {x y : Inventory} (h : Step strict x y) :
    x.memory.Continues y.memory := by
  cases h with
  | aside objects nodes size =>
    exact .of_subset (fun id object hobject => (objects id).symm.trans hobject) nodes size
  | clear gone =>
    refine .of_subset (fun id object hobject => ?_) (nodes_clearAll _ gone) (size_clearAll _ gone)
    rw [object?_clearAll] at hobject
    split at hobject
    · cases hobject
    · exact hobject
  | write hobject hstorage width index values =>
    exact .setStorage hobject hstorage (Storage.size_writeFrom _ width index values)
  | append node => exact .pushNode _ node
  | newArray | newImage | newList | copy | convertArray | convertImage | buildLoose =>
    exact .issue _ _

theorem Inventory.Steps.continues {strict : Prop} {x y : Inventory} (h : Steps strict x y) :
    x.memory.Continues y.memory := by
  induction h with
  | refl => exact .refl x.memory
  | tail _ last ih => exact ih.trans last.continues

end Custody
