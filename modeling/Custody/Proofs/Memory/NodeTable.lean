import Custody.DataList.Read
import Custody.Proofs.Memory.Evolve
import Mathlib.Data.List.Nodup
import Mathlib.Data.List.Range

/-!
# The node table

The nodes of all lists lie in one table, in the order in which they were appended.  In a memory that
has evolved from an empty one, a live list consists of exactly the nodes of the table that were
appended to it, in that order (`Memory.Tabled`); whatever is done to other lists in between does not
concern it (`Memory.Evolves.tabled`).

So the numbers of a list's nodes increase.  The successor of a node is found by looking the node up
in its list, and since no number occurs twice, walking from node to node visits the list once and
then stops (`Memory.Tabled.nodesFrom_eq`).
-/

namespace Custody

namespace Memory

/-! ## The nodes of a list -/

/-- The numbers of the nodes that were appended to a list. -/
def positions (m : Memory) (id : Nat) : List Nat :=
  (List.range m.nodes.size).filter fun n => (m.nodes[n]?).any (·.list = id)

/-- Each node was appended to something that had been issued, and each live list consists of the
nodes that were appended to it. -/
structure Tabled (m : Memory) : Prop where
  issued : ∀ node ∈ m.nodes.toList, node.list < m.allocations.size
  lists : ∀ id l, m.object? id = some (.list l) → l.nodes = m.positions id

theorem mem_positions_iff {m : Memory} {id n : Nat} :
    n ∈ m.positions id ↔ ∃ node, m.nodes[n]? = some node ∧ node.list = id := by
  rw [positions, List.mem_filter, List.mem_range, Option.any_eq_true]
  simp only [decide_eq_true_eq]
  constructor
  · exact And.right
  · rintro ⟨node, hnode, hlist⟩
    exact ⟨(Array.getElem?_eq_some_iff.mp hnode).1, node, hnode, hlist⟩

theorem positions_congr {m m' : Memory} (h : m'.nodes = m.nodes) (id : Nat) :
    m'.positions id = m.positions id := by
  rw [positions, positions, h]

theorem positions_pushNode (m : Memory) (node : Node) (id : Nat) :
    (m.pushNode node).positions id =
      if node.list = id then m.positions id ++ [m.nodes.size] else m.positions id := by
  have hold : ∀ n ∈ List.range m.nodes.size,
      ((m.nodes.push node)[n]?).any (·.list = id) = (m.nodes[n]?).any (·.list = id) := by
    intro n hn
    rw [Array.getElem?_push, if_neg (Nat.ne_of_lt (List.mem_range.mp hn))]
  unfold positions
  rw [nodes_pushNode, Array.size_push, List.range_succ, List.filter_append,
    List.filter_congr hold]
  by_cases hlist : node.list = id
  · simp [hlist]
  · simp [hlist]

/-- Nothing was appended to what has not been issued. -/
theorem Tabled.positions_eq_nil {m : Memory} (h : m.Tabled) {id : Nat}
    (hid : m.allocations.size ≤ id) : m.positions id = [] := by
  apply List.eq_nil_iff_forall_not_mem.mpr
  intro n hn
  obtain ⟨node, hnode, hlist⟩ := mem_positions_iff.mp hn
  have hissued := h.issued node (Array.mem_toList_iff.mpr (Array.mem_of_getElem? hnode))
  omega

theorem tabled_empty : ({} : Memory).Tabled where
  issued node hnode := by simp at hnode
  lists id l hl := by simp [object?] at hl

/-- However a memory evolves, its lists stay those of the table. -/
theorem Evolves.tabled {m m' : Memory} {added : List Node} {gone : Set Nat}
    (h : m.Evolves added gone m') (hm : m.Tabled) : m'.Tabled := by
  induction h with
  | refl => exact hm
  | aside _ objects nodes size ih =>
    refine ⟨fun node hnode => ?_, fun id l hl => ?_⟩
    · rw [size]
      exact ih.issued node (nodes ▸ hnode)
    · rw [positions_congr nodes]
      exact ih.lists id l ((objects id).symm.trans hl)
  | rewrite _ handle storage ih =>
    refine ⟨fun node hnode => ?_, fun id l hl => ?_⟩
    · rw [nodes_setStorage] at hnode
      rw [size_setStorage]
      exact ih.issued node hnode
    · rw [positions_congr (nodes_setStorage _ handle storage)]
      exact ih.lists id l ((object?_setStorage_eq_list_iff _ handle storage).mp hl)
  | issue _ object empty ih =>
    refine ⟨fun node hnode => ?_, fun id l hl => ?_⟩
    · rw [size_issue]
      exact Nat.lt_succ_of_lt (ih.issued node hnode)
    · rw [positions_congr (nodes_issue _ object)]
      rcases object?_issue_eq_list hl with hl | ⟨rfl, hobject⟩
      · exact ih.lists id l hl
      · -- a new list is empty, and nothing was appended to its number before
        rw [empty l hobject, ih.positions_eq_nil le_rfl]
  | append _ node issued ih =>
    refine ⟨fun other hother => ?_, fun id l hl => ?_⟩
    · rw [nodes_pushNode, Array.toList_push] at hother
      rw [size_pushNode]
      rcases List.mem_append.mp hother with hother | hother
      · exact ih.issued other hother
      · rwa [List.mem_singleton.mp hother]
    · obtain ⟨l', hl', hnodes⟩ := (object?_pushNode_eq_list_iff _ node).mp hl
      rw [positions_pushNode, hnodes, ih.lists id l' hl']
  | clear _ more ih =>
    refine ⟨fun node hnode => ?_, fun id l hl => ?_⟩
    · rw [size_clearAll]
      exact ih.issued node hnode
    · rw [object?_clearAll] at hl
      split at hl
      · cases hl
      · exact ih.lists id l hl

/-! ## What the nodes are -/

private theorem map_getElem?_filter_range {α : Type} (p : α → Bool) (xs : List α) :
    ((List.range xs.length).filter fun n => (xs[n]?).any p).map (xs[·]?) =
      (xs.filter p).map some := by
  -- the last element is taken or left, and the others keep their places
  induction xs using List.reverseRecOn with
  | nil => rfl
  | append_singleton xs last ih =>
    have hinit : ∀ n ∈ List.range xs.length, (xs ++ [last])[n]? = xs[n]? := fun n hn =>
      List.getElem?_append_left (List.mem_range.mp hn)
    have hfilter : (List.range xs.length).filter (fun n => ((xs ++ [last])[n]?).any p) =
        (List.range xs.length).filter fun n => (xs[n]?).any p := by
      apply List.filter_congr
      intro n hn
      rw [hinit n hn]
    have hmap : ((List.range xs.length).filter fun n => (xs[n]?).any p).map
          ((xs ++ [last])[·]?) =
        ((List.range xs.length).filter fun n => (xs[n]?).any p).map (xs[·]?) := by
      apply List.map_congr_left
      intro n hn
      exact hinit n (List.mem_filter.mp hn).1
    rw [List.length_append, List.length_singleton, List.range_succ, List.filter_append,
      List.filter_append, List.map_append, List.map_append, hfilter, hmap, ih]
    by_cases hp : p last = true
    · simp [hp]
    · simp [hp]

/-- The nodes at the positions of a list are those of the table that were appended to it. -/
theorem map_positions (m : Memory) (id : Nat) :
    (m.positions id).map (m.nodes[·]?) = (m.nodes.toList.filter (·.list = id)).map some := by
  have hlist := map_getElem?_filter_range (fun node : Node => decide (node.list = id))
    m.nodes.toList
  simpa [positions] using hlist

theorem pairwise_positions (m : Memory) (id : Nat) : (m.positions id).Pairwise (· < ·) :=
  List.pairwise_lt_range.filter _

theorem nodup_positions (m : Memory) (id : Nat) : (m.positions id).Nodup :=
  List.nodup_range.filter _

theorem length_positions_le (m : Memory) (id : Nat) : (m.positions id).length ≤ m.nodes.size := by
  have hle := List.length_filter_le (fun n => (m.nodes[n]?).any (·.list = id))
    (List.range m.nodes.size)
  rwa [List.length_range] at hle

/-! ## Walking along a list -/

@[simp] theorem NodeHandle.isNull_ofId (id : Nat) : (NodeHandle.ofId id).isNull = false := rfl

/-- A node of a live list can be read. -/
theorem node?_of_live {m : Memory} {n : Nat} {node : Node} {l : ListObject}
    (hnode : m.nodes[n]? = some node) (hl : m.object? node.list = some (.list l)) :
    m.node? (.ofId n) = some node := by
  have hlist : m.list? (.ofId node.list) = some l := by
    rw [list?, find?_ofId, hl]
  unfold node?
  rw [NodeHandle.id?_ofId, Option.bind_some, hnode, Option.filter_some, hlist]
  rfl

/-- The nodes of a list that is not live cannot be read. -/
theorem node?_of_not_live {m : Memory} {n : Nat} {node : Node} (hnode : m.nodes[n]? = some node)
    (hdead : ¬ m.Live node.list) : m.node? (.ofId n) = none := by
  have hnone : m.object? node.list = none := by
    rwa [Live, Option.not_isSome_iff_eq_none] at hdead
  have hlist : m.list? (.ofId node.list) = none := by
    rw [list?, find?_ofId, hnone]
  unfold node?
  rw [NodeHandle.id?_ofId, Option.bind_some, hnode, Option.filter_some, hlist]
  rfl

section Reading

variable {m : Memory} {n : NodeHandle} {node : Node}

/-- What a node holds can be read as long as the node can. -/
theorem nodeValue_of_node? (hnode : m.node? n = some node) :
    Host.reference.nodeValue n m = some node.value := by
  show (m.node? n).map (·.value) = _
  rw [hnode, Option.map_some]

theorem nodeValue_of_no_node? (hnode : m.node? n = none) :
    Host.reference.nodeValue n m = none := by
  show (m.node? n).map (·.value) = _
  rw [hnode, Option.map_none]

theorem code_of_node? (hnode : m.node? n = some node) :
    (⟨n, .reference⟩ : DataNode).code m = node.code := by
  show ((m.node? n).map (·.code)).getD 0 = _
  rw [hnode]
  rfl

end Reading

namespace Tabled

variable {m : Memory} {id : Nat} {l : ListObject}

/-- The node at a place of a live list is in the table, and was appended to the list. -/
theorem exists_node (h : m.Tabled) (hl : m.object? id = some (.list l)) {n : Nat}
    (hn : n ∈ l.nodes) : ∃ node, m.nodes[n]? = some node ∧ node.list = id := by
  rw [h.lists id l hl] at hn
  exact mem_positions_iff.mp hn

/-- The node that follows a node is the next one of the list. -/
theorem nextNode?_eq (h : m.Tabled) (hl : m.object? id = some (.list l)) {i : Nat}
    (hi : i < l.nodes.length) : m.nextNode? (.ofId l.nodes[i]) = l.nodes[i + 1]? := by
  obtain ⟨node, hnode, rfl⟩ := h.exists_node hl (List.getElem_mem hi)
  have hlist : m.list? (.ofId node.list) = some l := by
    rw [list?, find?_ofId, hl]
  have hnodup : l.nodes.Nodup := by
    rw [h.lists _ l hl]
    exact m.nodup_positions node.list
  have hplace : l.nodes.findIdx? (· == l.nodes[i]) = some i := by
    rw [List.findIdx?_eq_some_iff_getElem]
    refine ⟨hi, beq_self_eq_true _, fun j hj hsame => ?_⟩
    rw [beq_iff_eq, hnodup.getElem_inj_iff] at hsame
    omega
  unfold nextNode?
  rw [NodeHandle.id?_ofId, node?_of_live hnode hl]
  simp only [Option.bind_eq_bind, Option.bind_some, hlist, hplace]

/-- Walking from a place of a live list gives the nodes from there on, and stops by itself. -/
theorem nodesFrom_eq (h : m.Tabled) (hl : m.object? id = some (.list l)) (limit i : Nat)
    (hlimit : l.nodes.length ≤ i + limit) :
    nodesFrom .reference m limit (nodeHandle l.nodes[i]?) =
      (l.nodes.drop i).map fun n => ⟨.ofId n, .reference⟩ := by
  induction limit generalizing i with
  | zero => rw [nodesFrom, List.drop_eq_nil_of_le (by omega), List.map_nil]
  | succ limit ih =>
    by_cases hi : i < l.nodes.length
    · have hnext : Host.reference.nextNode (.ofId l.nodes[i]) m = nodeHandle l.nodes[i + 1]? := by
        show nodeHandle (m.nextNode? _) = _
        rw [h.nextNode?_eq hl hi]
      rw [List.getElem?_eq_getElem hi, nodeHandle, nodesFrom, NodeHandle.isNull_ofId, hnext,
        ih (i + 1) (by omega), List.drop_eq_getElem_cons hi]
      rfl
    · -- beyond the last node there is no handle
      rw [List.getElem?_eq_none (by omega), List.drop_eq_nil_of_le (by omega)]
      rfl

end Tabled

end Memory

end Custody
