import Custody.Proofs.Memory.Unfolding
import Custody.Proofs.Memory.Release
import Custody.Proofs.Host.Reference

/-!
# How a memory evolves

Whatever a host does is a sequence of a few elementary changes: an object is issued, a node is
appended, the elements of a buffer are overwritten, objects die, or something changes that is
neither an object nor a node.  `Memory.Evolves` is such a sequence; it says which nodes were
appended, in their order, and which objects were cleared.

What such a sequence keeps is proved once, by induction over it: nodes keep their numbers
(`Memory.Evolves.nodes_eq`), what is not cleared stays live (`Memory.Evolves.live`), and nothing is
held that no node was appended for (`Memory.Evolves.notMem_holdings`).
-/

namespace Custody

namespace Memory

/-! ## Elementary changes -/

/-- A sequence of elementary changes, with the nodes that are appended in it and the objects that
are cleared. -/
inductive Evolves (m : Memory) : List Node → Set Nat → Memory → Prop where
  | refl : Evolves m [] ∅ m
  /-- Neither an object nor a node changes. -/
  | aside {added gone m' m''} (before : Evolves m added gone m')
    (objects : ∀ id, m''.object? id = m'.object? id) (nodes : m''.nodes = m'.nodes)
    (size : m''.allocations.size = m'.allocations.size) : Evolves m added gone m''
  | rewrite {added gone m'} (before : Evolves m added gone m') (h : Handle) (storage : Storage) :
    Evolves m added gone (m'.setStorage h storage)
  | issue {added gone m'} (before : Evolves m added gone m') (object : Object)
    (empty : ∀ l, object = .list l → l.nodes = []) : Evolves m added gone (m'.issue object).2
  | append {added gone m'} (before : Evolves m added gone m') (node : Node)
    (issued : node.list < m'.allocations.size) :
    Evolves m (added ++ [node]) gone (m'.pushNode node)
  | clear {added gone m'} (before : Evolves m added gone m') (more : Set Nat) :
    Evolves m added (gone ∪ more) (m'.clearAll more)

/-- Writing into a buffer leaves every object what it is but for its elements. -/
theorem object?_setStorage (m : Memory) (h : Handle) (storage : Storage) (id : Nat) :
    (m.setStorage h storage).object? id =
      if h.id? = some id then (m.object? id).map (Object.setStorage storage) else m.object? id := by
  unfold setStorage
  cases hid : h.id? with
  | none => simp
  | some other =>
    rw [object?_modifyObject]
    simp only [Option.some.injEq]

theorem object?_setStorage_self {m : Memory} {id : Nat} {object : Object}
    (hobject : m.object? id = some object) (storage : Storage) :
    (m.setStorage (.ofId id) storage).object? id = some (object.setStorage storage) := by
  rw [object?_setStorage, if_pos (Handle.id?_ofId id), hobject, Option.map_some]

@[simp] theorem nodes_setStorage (m : Memory) (h : Handle) (storage : Storage) :
    (m.setStorage h storage).nodes = m.nodes := by
  unfold setStorage
  cases h.id? <;> rfl

@[simp] theorem size_setStorage (m : Memory) (h : Handle) (storage : Storage) :
    (m.setStorage h storage).allocations.size = m.allocations.size := by
  unfold setStorage
  cases h.id? <;> simp

@[simp] theorem shares_setStorage (m : Memory) (h : Handle) (storage : Storage) (other : Handle) :
    (m.setStorage h storage).shares other = m.shares other := by
  unfold setStorage
  cases h.id? with
  | none => rfl
  | some id => exact shares_modifyObject m id _ other

@[simp] theorem counters_setStorage (m : Memory) (h : Handle) (storage : Storage) :
    (m.setStorage h storage).counters = m.counters := by
  unfold setStorage
  cases h.id? <;> rfl

@[simp] theorem live_setStorage (m : Memory) (h : Handle) (storage : Storage) {id : Nat} :
    (m.setStorage h storage).Live id ↔ m.Live id := by
  rw [Live, Live, object?_setStorage]
  split
  · rw [Option.isSome_map]
  · rfl

/-- Writing into a buffer does not concern lists. -/
theorem object?_setStorage_eq_list_iff (m : Memory) (h : Handle) (storage : Storage) {id : Nat}
    {l : ListObject} :
    (m.setStorage h storage).object? id = some (.list l) ↔ m.object? id = some (.list l) := by
  rw [object?_setStorage]
  split
  · rw [Option.map_eq_some_iff]
    constructor
    · rintro ⟨object, hobject, hlist⟩
      cases object with
      | list l' => rw [hobject]; exact congrArg some hlist
      | array a => cases hlist
      | image i => cases hlist
    · exact fun hl => ⟨_, hl, rfl⟩
  · rfl

/-- The lists of a memory with one more node are the lists of before, one of them longer. -/
theorem object?_pushNode_eq_list_iff (m : Memory) (node : Node) {id : Nat} {l : ListObject} :
    (m.pushNode node).object? id = some (.list l) ↔
      ∃ l', m.object? id = some (.list l') ∧
        l.nodes = if node.list = id then l'.nodes ++ [m.nodes.size] else l'.nodes := by
  rw [object?_pushNode]
  split
  case isTrue =>
    rw [Option.map_eq_some_iff]
    constructor
    · rintro ⟨object, hobject, happended⟩
      cases object with
      | list l' =>
        obtain rfl : _ = l := Object.list.inj happended
        exact ⟨l', hobject, rfl⟩
      | array a => cases happended
      | image i => cases happended
    · rintro ⟨l', hl', hnodes⟩
      exact ⟨_, hl', congrArg Object.list (congrArg ListObject.mk hnodes.symm)⟩
  case isFalse =>
    constructor
    · exact fun hl => ⟨l, hl, rfl⟩
    · rintro ⟨l', hl', hnodes⟩
      obtain rfl : l = l' := congrArg ListObject.mk hnodes
      exact hl'

/-- The lists of a memory with one more object are those of before, and perhaps the new one. -/
theorem object?_issue_eq_list {m : Memory} {object : Object} {id : Nat} {l : ListObject}
    (h : (m.issue object).2.object? id = some (.list l)) :
    m.object? id = some (.list l) ∨ id = m.allocations.size ∧ object = .list l := by
  rw [object?_issue] at h
  split at h
  case isTrue hid => exact .inr ⟨hid, Option.some.inj h⟩
  case isFalse => exact .inl h

theorem mem_holdings_iff {m : Memory} {id held : Nat} :
    held ∈ m.holdings id ↔ ∃ l n node, m.object? id = some (.list l) ∧ n ∈ l.nodes ∧
      m.nodes[n]? = some node ∧ nestedIn node = some held := by
  constructor
  · intro h
    obtain ⟨object, hobject⟩ := live_iff.mp (live_of_mem_holdings h)
    rcases list_or_buffer object with ⟨l, rfl⟩ | hbuffer
    · rw [holdings_of_list hobject] at h
      obtain ⟨n, hn, hheldAt⟩ := List.mem_filterMap.mp h
      obtain ⟨node, hnode, hnested⟩ := Option.bind_eq_some_iff.mp hheldAt
      exact ⟨l, n, node, hobject, hn, hnode, hnested⟩
    · rw [holdings_of_buffer hobject hbuffer] at h
      cases h
  · rintro ⟨l, n, node, hl, hn, hnode, hnested⟩
    exact mem_holdings_of_node hl hn hnode hnested

namespace Evolves

variable {m m' m'' : Memory} {added more : List Node} {gone dead : Set Nat}

theorem trans (h : m.Evolves added gone m') (h' : m'.Evolves more dead m'') :
    m.Evolves (added ++ more) (gone ∪ dead) m'' := by
  induction h' with
  | refl =>
    rw [List.append_nil, Set.union_empty]
    exact h
  | aside _ objects nodes size ih => exact .aside ih objects nodes size
  | rewrite _ handle storage ih => exact .rewrite ih handle storage
  | issue _ object empty ih => exact .issue ih object empty
  | append _ node issued ih =>
    rw [← List.append_assoc]
    exact .append ih node issued
  | clear _ gone' ih =>
    rw [← Set.union_assoc]
    exact .clear ih gone'

/-- A sequence in which nothing is appended and nothing dies, after another. -/
theorem then_quiet (h : m.Evolves added gone m') (h' : m'.Evolves [] ∅ m'') :
    m.Evolves added gone m'' := by
  have hboth := h.trans h'
  rwa [List.append_nil, Set.union_empty] at hboth

/-- The node table only grows, by what is appended. -/
theorem nodes_eq (h : m.Evolves added gone m') : m'.nodes.toList = m.nodes.toList ++ added := by
  induction h with
  | refl => rw [List.append_nil]
  | aside _ _ nodes _ ih => rw [nodes, ih]
  | rewrite _ _ _ ih => rw [nodes_setStorage, ih]
  | issue _ _ _ ih => rw [nodes_issue, ih]
  | append _ node _ ih => rw [nodes_pushNode, Array.toList_push, ih, List.append_assoc]
  | clear _ _ ih => rw [nodes_clearAll, ih]

/-- A node keeps its number. -/
theorem nodesIn (h : m.Evolves added gone m') : m.NodesIn m' := by
  intro n node hnode
  rw [← Array.getElem?_toList] at hnode ⊢
  have hn : n < m.nodes.toList.length := (List.getElem?_eq_some_iff.mp hnode).1
  rw [h.nodes_eq, List.getElem?_append_left hn, hnode]

/-- Handles are given out one after another. -/
theorem size_le (h : m.Evolves added gone m') : m.allocations.size ≤ m'.allocations.size := by
  induction h with
  | refl => exact le_rfl
  | aside _ _ _ size ih => rwa [size]
  | rewrite _ _ _ ih => rwa [size_setStorage]
  | issue _ _ _ ih => rw [size_issue]; omega
  | append _ _ _ ih => rwa [size_pushNode]
  | clear _ _ ih => rwa [size_clearAll]

/-- What is not cleared stays live. -/
theorem live (h : m.Evolves added gone m') {id : Nat} (hlive : m.Live id) (hid : id ∉ gone) :
    m'.Live id := by
  induction h with
  | refl => exact hlive
  | aside _ objects _ _ ih =>
    rw [Live, objects]
    exact ih hid
  | rewrite _ _ _ ih => exact (live_setStorage _ _ _).mpr (ih hid)
  | issue _ object _ ih =>
    rw [Live, object?_issue]
    split
    · rfl
    · exact ih hid
  | append _ _ _ ih => exact (live_pushNode _ _ _).mpr (ih hid)
  | clear _ more ih =>
    rw [Set.mem_union, not_or] at hid
    exact (live_clearAll _ _).mpr ⟨ih hid.1, hid.2⟩

/-- A node of a list was appended, or it was a node of the list before. -/
theorem added_or_before (h : m.Evolves added gone m') {id n : Nat} {l : ListObject} {node : Node}
    (hl : m'.object? id = some (.list l)) (hn : n ∈ l.nodes) (hnode : m'.nodes[n]? = some node) :
    node ∈ added ∨
      ∃ l', m.object? id = some (.list l') ∧ n ∈ l'.nodes ∧ m.nodes[n]? = some node := by
  -- the list and the node are followed back to where they come from
  induction h generalizing l with
  | refl => exact .inr ⟨l, hl, hn, hnode⟩
  | aside _ objects nodes _ ih =>
    rw [objects] at hl
    rw [nodes] at hnode
    exact ih hl hn hnode
  | rewrite _ _ _ ih =>
    rw [object?_setStorage_eq_list_iff] at hl
    rw [nodes_setStorage] at hnode
    exact ih hl hn hnode
  | issue _ object empty ih =>
    rcases object?_issue_eq_list hl with hl | ⟨-, hobject⟩
    · exact ih hl hn hnode
    · rw [empty l hobject] at hn
      cases hn
  | @append added gone m' _ other issued ih =>
    rw [nodes_pushNode, Array.getElem?_push] at hnode
    split at hnode
    case isTrue =>
      obtain rfl := Option.some.inj hnode
      exact .inl (by simp)
    case isFalse hold =>
      obtain ⟨l', hl', hnodes⟩ := (object?_pushNode_eq_list_iff m' other).mp hl
      have hn' : n ∈ l'.nodes := by
        rw [hnodes] at hn
        split at hn
        · rcases List.mem_append.mp hn with hn | hn
          · exact hn
          · exact absurd (List.mem_singleton.mp hn) hold
        · exact hn
      exact (ih hl' hn' hnode).imp_left fun hmem => List.mem_append_left _ hmem
  | clear _ more ih =>
    rw [object?_clearAll] at hl
    split at hl
    · cases hl
    · exact ih hl hn hnode

/-- No object is held that was not held before, unless a node that was appended names it. -/
theorem notMem_holdings (h : m.Evolves added gone m') {id : Nat}
    (hheld : ∀ holder, id ∉ m.holdings holder) (hadded : ∀ node ∈ added, nestedIn node ≠ some id)
    (holder : Nat) : id ∉ m'.holdings holder := by
  intro hmem
  obtain ⟨l, n, node, hl, hn, hnode, hnested⟩ := mem_holdings_iff.mp hmem
  rcases h.added_or_before hl hn hnode with hnew | ⟨l', hl', hn', hnode'⟩
  · exact hadded node hnew hnested
  · exact hheld holder (mem_holdings_iff.mpr ⟨l', n, node, hl', hn', hnode', hnested⟩)

end Evolves

/-! ## Releasing -/

@[simp] theorem size_setShares (m : Memory) (h : Handle) (shares : Int64) :
    (m.setShares h shares).allocations.size = m.allocations.size := by
  unfold setShares
  cases h.id? <;> simp

theorem evolves_count (m : Memory) (f : Counters → Counters) : m.Evolves [] ∅ (m.count f) :=
  .aside .refl (fun _ => rfl) rfl rfl

theorem evolves_setShares (m : Memory) (h : Handle) (shares : Int64) :
    m.Evolves [] ∅ (m.setShares h shares) :=
  .aside .refl (object?_setShares m h shares) (nodes_setShares m h shares)
    (size_setShares m h shares)

/-- Arming and disarming failures. -/
theorem evolves_arm (m : Memory) (allocation clone conversions : Bool) :
    m.Evolves [] ∅
      { m with
        failNextAllocation := allocation
        failNextClone := clone
        failConversions := conversions } :=
  .aside .refl (fun _ => rfl) rfl rfl

private theorem evolves_clearAll (m : Memory) (gone : Set Nat) :
    m.Evolves [] gone (m.clearAll gone) := by
  have hcleared : m.Evolves [] (∅ ∪ gone) (m.clearAll gone) := .clear .refl gone
  rwa [Set.empty_union] at hcleared

/-- The objects that a handle reaches. -/
def under (m : Memory) (h : Handle) : Set Nat := {id | ∃ root, h = .ofId root ∧ m.Reaches root id}

theorem reach_subset_under (m : Memory) (root : Nat) : m.reach root ⊆ m.under (.ofId root) :=
  fun _ hreach => ⟨root, rfl, hreach⟩

/-- Freeing a handle clears nothing but what the handle reaches. -/
theorem evolves_free (m : Memory) (h : Handle) :
    ∃ gone ⊆ m.under h, m.Evolves [] gone (m.free h) := by
  cases hlive : m.isLive h with
  | true =>
    obtain ⟨id, rfl, hid⟩ := isLive_iff.mp hlive
    rw [free_of_live hid]
    exact ⟨m.reach id, reach_subset_under m id,
      (evolves_clearAll m _).then_quiet (evolves_count _ _)⟩
  | false =>
    rw [free_of_not_live hlive]
    exact ⟨∅, Set.empty_subset _, evolves_count m _⟩

/-- Giving up a share clears nothing but what the handle reaches. -/
theorem evolves_disown (m : Memory) (h : Handle) :
    ∃ gone ⊆ m.under h, m.Evolves [] gone (m.disown h) := by
  cases hlive : m.isLive h with
  | true =>
    obtain ⟨id, rfl, hid⟩ := isLive_iff.mp hlive
    have hlowered : m.Evolves [] ∅ (m.lowered id) :=
      (evolves_count m _).then_quiet (evolves_setShares _ _ _)
    rw [disown_of_live hid]
    split
    · refine ⟨m.reach id, reach_subset_under m id, ?_⟩
      have hboth := hlowered.trans (evolves_clearAll (m.lowered id) (m.reach id))
      rwa [List.append_nil, Set.empty_union] at hboth
    · exact ⟨∅, Set.empty_subset _, hlowered⟩
  | false =>
    rw [disown_of_not_live hlive]
    exact ⟨∅, Set.empty_subset _, evolves_count m _⟩

/-- What holds nothing reaches only itself. -/
theorem Reaches.eq_of_buffer {m : Memory} {root id : Nat} {object : Object}
    (hobject : m.object? root = some object) (hbuffer : ∀ l, object ≠ .list l)
    (h : m.Reaches root id) : id = root := by
  induction h with
  | root _ => rfl
  | step _ holds _ ih =>
    rw [ih, holdings_of_buffer hobject hbuffer] at holds
    cases holds

/-! ## Giving objects -/

/-- An object is issued, and that is counted in some way. -/
theorem evolves_issued (m : Memory) {object : Object}
    (hempty : ∀ l, object = .list l → l.nodes = []) (f : Counters → Counters) :
    m.Evolves [] ∅ ((m.issue object).2.count f) :=
  (Evolves.issue .refl object hempty).then_quiet (evolves_count _ f)

theorem evolves_allocate (m : Memory) {object : Option Object}
    (hempty : ∀ l, object = some (.list l) → l.nodes = []) :
    m.Evolves [] ∅ (m.allocate object).2 := by
  unfold allocate
  split
  · exact evolves_arm m false m.failNextClone m.failConversions
  · cases object with
    | none => exact .refl
    | some object =>
      exact evolves_issued m (fun l hl => hempty l (congrArg some hl))
        fun c => { c with allocations := c.allocations + 1 }

theorem evolves_newArray (m : Memory) (category : ArrayCategory) (code : Int)
    (extents : List Int) : m.Evolves [] ∅ (Host.reference.newArray category code extents m).2 :=
  evolves_allocate m (by simp)

theorem evolves_newImage (m : Memory) (request : ImageRequest) :
    m.Evolves [] ∅ (Host.reference.newImage request m).2 := by
  show m.Evolves [] ∅ (m.allocateImage request).2
  unfold allocateImage
  split
  · exact .refl
  · exact evolves_allocate m (by simp)

theorem evolves_newList (m : Memory) : m.Evolves [] ∅ (Host.reference.newList m).2 :=
  evolves_allocate m (by rintro l ⟨⟩; rfl)

/-- What something is converted into is a buffer. -/
theorem evolves_issueConverted (m : Memory) {object : Option Object}
    (hbuffer : ∀ l, object ≠ some (.list l)) : m.Evolves [] ∅ (m.issueConverted object).2 := by
  unfold issueConverted
  split
  · exact .refl
  · cases object with
    | none => exact .refl
    | some object =>
      exact evolves_issued m (fun l hl => absurd (congrArg some hl) (hbuffer l))
        fun c => { c with conversions := c.conversions + 1 }

theorem evolves_convertArray (m : Memory) (h : Handle) (code method : Int)
    (tolerance : Number.Double) :
    m.Evolves [] ∅ (Host.reference.convertArray h code method tolerance m).2 := by
  refine evolves_issueConverted m fun l hl => ?_
  simp [Option.bind_eq_some_iff] at hl

theorem evolves_convertImage (m : Memory) (h : Handle) (code : Int) (interleaved : Bool) :
    m.Evolves [] ∅ (Host.reference.convertImage h code interleaved m).2 := by
  refine evolves_issueConverted m fun l hl => ?_
  simp [Option.bind_eq_some_iff] at hl

/-! ## Objects that the host makes by itself -/

/-- What the host makes by itself is added to what there is. -/
theorem Builds.evolves {m m' : Memory} (h : m.Builds m') : m.Evolves [] ∅ m' := by
  rcases h.eq_or_issue with rfl | ⟨object, hempty, rfl⟩
  · exact .refl
  · exact .issue .refl object hempty

end Memory

end Custody
