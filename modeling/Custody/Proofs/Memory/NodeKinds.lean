import Custody.Proofs.DataList.Atomic
import Custody.Proofs.Memory.Expand
import Custody.Proofs.Memory.NodeTable

/-!
# What nodes hold

A node says by its code what it holds.  The code is checked when the node is appended, against an
object that is live then; later the object can die, and the node still names it.  Since a number is
never issued again, and an object never changes its category, the code stays right: a number that
was issued for a category (`Memory.Names`) names an object of that category or nothing, however the
memory evolves (`Memory.Evolves.names`).

A memory is orderly if its nodes are those of its lists, and each of them holds what its code says.
Copying is what takes some care here: the copy of a node names a copy, which has been issued while
the node table was growing.  The copy is of the category that the code says since what it was copied
from is (`Memory.copiesInKind_copyWithin`).
-/

namespace Custody

/-- The kinds under which a list stores anything: plain values and texts, and the objects of each
category. -/
def ArgumentKind.stored : List ArgumentKind :=
  [boolean, integer, real, complex, text, tensor, numericArray, image, dataList]

namespace Memory

/-! ## The category of a number -/

/-- The number has been issued, and what it names, if it still names anything, is of a category. -/
structure Names (m : Memory) (id : Nat) (c : Category) : Prop where
  issued : id < m.allocations.size
  category : ∀ object, m.object? id = some object → object.category = c

variable {m m' m'' : Memory} {id : Nat} {c : Category} {added : List Node} {gone : Set Nat}

theorem category_setStorage (storage : Storage) (object : Object) :
    (object.setStorage storage).category = object.category := by
  cases object <;> rfl

theorem category_appended (n : Nat) (object : Object) :
    (appended n object).category = object.category := by
  cases object <;> rfl

theorem Names.of_object {object : Object} (h : m.object? id = some object) :
    m.Names id object.category :=
  ⟨(Live.of_object h).lt_size, fun other hother => by
    obtain rfl := Option.some.inj (h.symm.trans hother)
    rfl⟩

theorem Names.of_issue (m : Memory) (object : Object) :
    (m.issue object).2.Names m.allocations.size object.category :=
  .of_object (object?_issue_self m object)

/-- Objects change and die, and numbers keep their categories. -/
theorem Evolves.names (h : m.Evolves added gone m') (hid : m.Names id c) : m'.Names id c := by
  refine ⟨hid.issued.trans_le h.size_le, ?_⟩
  induction h with
  | refl => exact hid.category
  | aside _ objects _ _ ih =>
    intro object hobject
    exact ih object (objects id ▸ hobject)
  | rewrite _ handle storage ih =>
    intro object hobject
    rw [object?_setStorage] at hobject
    split at hobject
    · obtain ⟨before, hbefore, rfl⟩ := Option.map_eq_some_iff.mp hobject
      exact (category_setStorage storage before).trans (ih before hbefore)
    · exact ih object hobject
  | issue before new _ ih =>
    intro object hobject
    have hold : id < _ := hid.issued.trans_le before.size_le
    rw [object?_issue, if_neg hold.ne] at hobject
    exact ih object hobject
  | append _ node _ ih =>
    intro object hobject
    rw [object?_pushNode] at hobject
    split at hobject
    · obtain ⟨before, hbefore, rfl⟩ := Option.map_eq_some_iff.mp hobject
      exact (category_appended _ before).trans (ih before hbefore)
    · exact ih object hobject
  | clear _ more ih =>
    intro object hobject
    rw [object?_clearAll] at hobject
    split at hobject
    · cases hobject
    · exact ih object hobject

/-! ## Nodes that hold what they say -/

/-- The node was appended to a list, under one of the kinds that are stored, and it names something
of the category that its code says, if it says one. -/
structure Proper (m : Memory) (node : Node) : Prop where
  list : m.Names node.list .list
  kind : ∃ kind ∈ ArgumentKind.stored, node.code = kind.code
  held : ∀ c, nestedCategory? node.code = some c →
    ∃ id, node.value.asHandle = .ofId id ∧ m.Names id c

theorem Proper.evolves {node : Node} (hnode : m.Proper node) (h : m.Evolves added gone m') :
    m'.Proper node where
  list := h.names hnode.list
  kind := hnode.kind
  held c hc := by
    obtain ⟨id, hhandle, hid⟩ := hnode.held c hc
    exact ⟨id, hhandle, h.names hid⟩

/-- Nothing is stored under a code but that of a kind that is stored. -/
theorem exists_stored_of_storable {list : Nat} {code : Int} {value : Payload}
    (h : m.storable list code value = true) : ∃ kind ∈ ArgumentKind.stored, code = kind.code := by
  unfold storable at h
  cases hkind : ArgumentKind.ofCode? code with
  | none => simp [hkind] at h
  | some kind =>
    have hcode := List.find?_some (p := fun k : ArgumentKind => k.code == code) hkind
    refine ⟨kind, ?_, (beq_iff_eq.mp hcode).symm⟩
    cases kind
    case undefined | sparseArray => simp [hkind, ArgumentKind.category?] at h
    all_goals simp [ArgumentKind.stored]

/-- What a list may store is a node that holds what it says. -/
theorem Proper.of_storable {node : Node} {l : ListObject}
    (hl : m.object? node.list = some (.list l))
    (h : m.storable node.list node.code node.value = true) : m.Proper node := by
  obtain ⟨kind, hstored, hcode⟩ := exists_stored_of_storable h
  refine ⟨.of_object hl, ⟨kind, hstored, hcode⟩, fun c hc => ?_⟩
  rw [hcode] at h hc
  rw [storable_of_category (nestedCategory?_code kind ▸ hc), Bool.and_eq_true,
    Option.any_eq_true] at h
  obtain ⟨⟨object, hfound, hcategory⟩, -⟩ := h
  obtain ⟨id, hhandle, hobject⟩ := find?_eq_some_iff.mp hfound
  obtain rfl : object.category = c := by simpa using hcategory
  exact ⟨id, hhandle, .of_object hobject⟩

/-! ## Orderly memories -/

/-- The nodes are those of the lists, and each of them holds what it says. -/
structure Orderly (m : Memory) : Prop where
  tabled : m.Tabled
  proper : ∀ node ∈ m.nodes.toList, m.Proper node

theorem orderly_empty : ({} : Memory).Orderly := ⟨tabled_empty, by simp⟩

theorem Orderly.proper_getElem? (hm : m.Orderly) {n : Nat} {node : Node}
    (hnode : m.nodes[n]? = some node) : m.Proper node :=
  hm.proper node (Array.mem_toList_iff.mpr (Array.mem_of_getElem? hnode))

theorem Orderly.evolves (hm : m.Orderly) (h : m.Evolves added gone m')
    (hadded : ∀ node ∈ added, m'.Proper node) : m'.Orderly where
  tabled := h.tabled hm.tabled
  proper node hnode := by
    rw [h.nodes_eq, List.mem_append] at hnode
    exact hnode.elim (fun hold => (hm.proper node hold).evolves h) (hadded node)

/-- The memory is orderly afterwards, and no number has come to name something of another
category. -/
structure Upholds (m m' : Memory) : Prop where
  names : ∀ id c, m.Names id c → m'.Names id c
  orderly : m'.Orderly

namespace Upholds

theorem refl (hm : m.Orderly) : m.Upholds m := ⟨fun _ _ hid => hid, hm⟩

theorem trans (h : m.Upholds m') (h' : m'.Upholds m'') : m.Upholds m'' :=
  ⟨fun id c hid => h'.names id c (h.names id c hid), h'.orderly⟩

/-- Where nothing is appended, there is nothing to check. -/
theorem of_evolves (hm : m.Orderly) (h : m.Evolves [] gone m') : m.Upholds m' :=
  ⟨fun _ _ => h.names, hm.evolves h (by simp)⟩

theorem issue (hm : m.Orderly) {object : Object}
    (hempty : ∀ l, object = .list l → l.nodes = []) : m.Upholds (m.issue object).2 :=
  .of_evolves hm (.issue .refl object hempty)

theorem pushNode (hm : m.Orderly) {node : Node} (hnode : m.Proper node) :
    m.Upholds (m.pushNode node) := by
  have hevolves : m.Evolves [node] ∅ (m.pushNode node) := .append .refl node hnode.list.issued
  refine ⟨fun _ _ => hevolves.names, hm.evolves hevolves fun other hother => ?_⟩
  obtain rfl := List.mem_singleton.mp hother
  exact hnode.evolves hevolves

end Upholds

/-! ## Copying -/

/-- An action that copies objects: it upholds the order, and what it makes is of the category of
what it is made of. -/
structure CopiesInKind (copy : Nat → Memory → Option Nat × Memory) : Prop where
  upholds : ∀ id (m : Memory), m.Orderly → m.Upholds (copy id m).2
  made : ∀ id (m : Memory) made c, m.Orderly → (copy id m).1 = some made → m.Names id c →
    (copy id m).2.Names made c

section Copying

variable {copy : Nat → Memory → Option Nat × Memory} {target : Nat}

/-- A node is copied under the code that it has, with a copy of what it names. -/
theorem upholds_copyNode (hcopy : CopiesInKind copy) (hm : m.Orderly)
    (htarget : m.Names target .list) {node : Node} (hnode : m.Proper node) :
    m.Upholds (copyNode copy target node m).2 := by
  unfold copyNode
  split
  case h_1 hplain =>
    refine .pushNode hm ⟨htarget, hnode.kind, fun c hc => ?_⟩
    rw [hplain] at hc
    cases hc
  case h_2 c hcategory =>
    obtain ⟨held, hhandle, hheld⟩ := hnode.held c hcategory
    rw [hhandle, Handle.id?_ofId]
    have hupholds := hcopy.upholds held m hm
    have hmade := hcopy.made held m
    simp only
    rcases hresult : copy held m with ⟨_ | made, m'⟩
    · rw [hresult] at hupholds
      exact hupholds
    · rw [hresult] at hupholds hmade
      refine hupholds.trans (.pushNode hupholds.orderly ⟨hupholds.names _ _ htarget, hnode.kind,
        fun c' hc' => ⟨made, rfl, ?_⟩⟩)
      obtain rfl : c = c' := Option.some.inj (hcategory.symm.trans hc')
      exact hmade made c hm rfl hheld

theorem upholds_copyNodes (hcopy : CopiesInKind copy) (ns : List Nat) (hm : m.Orderly)
    (htarget : m.Names target .list) : m.Upholds (copyNodes copy target ns m).2 := by
  induction ns generalizing m with
  | nil => exact .refl hm
  | cons n ns ih =>
    unfold copyNodes
    cases hnode : m.nodes[n]? with
    | none => exact .refl hm
    | some node =>
      have hupholds := upholds_copyNode hcopy hm htarget (hm.proper_getElem? hnode)
      rcases hresult : copyNode copy target node m with ⟨_ | _, m'⟩
      · rw [hresult] at hupholds
        simpa only [hresult] using hupholds
      · rw [hresult] at hupholds
        simp only [hresult]
        exact hupholds.trans (ih hupholds.orderly (hupholds.names _ _ htarget))

end Copying

/-- Copies are in kind, within any number of levels and whether these are enough or not. -/
theorem copiesInKind_copyWithin (depth : Nat) : CopiesInKind (copyWithin depth) := by
  induction depth with
  | zero => exact ⟨fun _ _ hm => .refl hm, fun _ _ _ _ _ hmade => by cases hmade⟩
  | succ depth ih =>
    have hcopied : ∀ id (m : Memory), m.Orderly →
        m.Upholds (copyWithin (depth + 1) id m).2 ∧
          ∀ made c, (copyWithin (depth + 1) id m).1 = some made → m.Names id c →
            (copyWithin (depth + 1) id m).2.Names made c := by
      intro id m hm
      unfold copyWithin
      cases hobject : m.object? id with
      | none => exact ⟨.refl hm, by simp⟩
      | some object =>
        have hcategory : ∀ c, m.Names id c → object.category = c := fun c hid =>
          hid.category object hobject
        cases object with
        | list l =>
          -- the copy is a list from the start, and stays one while its nodes come
          have hissued : m.Upholds (m.issue (.list ⟨[]⟩)).2 := .issue hm (by rintro _ ⟨⟩; rfl)
          have hlist := Names.of_issue m (.list ⟨[]⟩)
          have hnodes := upholds_copyNodes ih l.nodes hissued.orderly hlist
          have hupholds := hissued.trans hnodes
          have hmade := hnodes.names _ _ hlist
          simp only [issue_fst]
          rcases hresult : copyNodes (copyWithin depth) m.allocations.size l.nodes
            (m.issue (.list ⟨[]⟩)).2 with ⟨_ | _, m'⟩
          · rw [hresult] at hupholds
            exact ⟨hupholds, by simp⟩
          · rw [hresult] at hupholds hmade
            refine ⟨hupholds, ?_⟩
            rintro made c ⟨⟩ hid
            exact hcategory c hid ▸ hmade
        | array a =>
          refine ⟨.issue hm (by simp), ?_⟩
          rintro made c ⟨⟩ hid
          exact hcategory c hid ▸ .of_issue m (.array a)
        | image i =>
          refine ⟨.issue hm (by simp), ?_⟩
          rintro made c ⟨⟩ hid
          exact hcategory c hid ▸ .of_issue m (.image i)
    exact ⟨fun id m hm => (hcopied id m hm).1,
      fun id m made c hm => (hcopied id m hm).2 made c⟩

/-- A copy that is asked for upholds the order, whether it is refused, stops half way, or
succeeds. -/
theorem upholds_cloneIf (hm : m.Orderly) (accepts : Object → Bool) (h : Handle) :
    m.Upholds (m.cloneIf accepts h).2 := by
  unfold cloneIf
  split
  · exact .of_evolves hm (evolves_arm m m.failNextAllocation false m.failConversions)
  · split
    case h_1 id object hid hfound =>
      have hcopied : m.Upholds (m.copy id).2 :=
        (copiesInKind_copyWithin m.allocations.size).upholds id m hm
      rcases hresult : m.copy id with ⟨_ | made, m'⟩
      · simpa only [hresult] using hcopied
      · have hcounted : m'.Evolves [] ∅ (m'.count fun c => { c with clones := c.clones + 1 }) :=
          evolves_count m' _
        rw [hresult] at hcopied
        exact hcopied.trans (.of_evolves hcopied.orderly hcounted)
    case h_2 => exact .refl hm

/-! ## What an orderly memory is like -/

/-- What can be said of the node table of a memory, of its lists, and of what is read from it. -/
structure InOrder (m : Memory) : Prop where
  /-- The nodes of a list come in the order of their numbers. -/
  increasing : ∀ id l, m.object? id = some (.list l) → l.nodes.Pairwise (· < ·)
  /-- A node is in its list once. -/
  once : ∀ id l n, m.object? id = some (.list l) → n ∈ l.nodes → l.nodes.count n = 1
  /-- A node is in one list at most. -/
  apart : ∀ id id' l l' n, m.object? id = some (.list l) → m.object? id' = some (.list l') →
    n ∈ l.nodes → n ∈ l'.nodes → id = id'
  /-- What is in a list is in the table, and was appended to that list. -/
  own : ∀ id l n, m.object? id = some (.list l) → n ∈ l.nodes →
    ∃ node, m.nodes[n]? = some node ∧ node.list = id
  /-- The list that a node was appended to has the node for as long as it is live. -/
  listed : ∀ (n : Nat) (node : Node), m.nodes[n]? = some node → m.Live node.list →
    ∃ l, m.object? node.list = some (.list l) ∧ n ∈ l.nodes
  kind : ∀ (n : Nat) (node : Node), m.nodes[n]? = some node →
    ∃ kind ∈ ArgumentKind.stored, node.code = kind.code
  /-- A node of an object names a number that was issued for the category of its code. -/
  held : ∀ (n : Nat) (node : Node) c, m.nodes[n]? = some node →
    nestedCategory? node.code = some c →
    ∃ id, node.value.asHandle = .ofId id ∧ m.Names id c
  /-- As long as the list is live, the node is read as a view of that category. -/
  shown : ∀ (n : Nat) (node : Node) c, m.nodes[n]? = some node →
    nestedCategory? node.code = some c → m.Live node.list →
    ∃ id, (⟨.ofId n, .reference⟩ : DataNode).value m =
      .ok (.view (⟨.ofId id, .host, .reference⟩ : Container c)) ∧ m.Names id c
  /-- Whatever is read as a view, of any node, is of the category of the view. -/
  view : ∀ (n : NodeHandle) (c : Category) (k : Container c),
    (⟨n, .reference⟩ : DataNode).value m = .ok (.view k) →
    ∃ id, k.handle = .ofId id ∧ m.Names id c

/-- What is live under a number that was issued for a list is a list. -/
theorem Names.exists_list (h : m.Names id .list) (hlive : m.Live id) :
    ∃ l, m.object? id = some (.list l) := by
  obtain ⟨object, hobject⟩ := live_iff.mp hlive
  have hcategory := h.category object hobject
  cases object with
  | list l => exact ⟨l, hobject⟩
  | array a => cases hcategory
  | image i => cases hcategory

section Reading

variable {n : NodeHandle} {node : Node}

/-- A node of an object is read as a view of the handle that it holds. -/
theorem value_of_category (hnode : m.node? n = some node) {kind : ArgumentKind}
    (hkind : ArgumentKind.ofCode? node.code = some kind) (hc : kind.category? = some c) :
    (⟨n, .reference⟩ : DataNode).value m =
      (Container.adopt c .reference node.value.asHandle .host).map .view := by
  simp only [DataNode.value, DataNode.kind?, nodeValue_of_node? hnode, code_of_node? hnode, hkind, hc]

theorem value_of_nested (hnode : m.node? n = some node) (hc : nestedCategory? node.code = some c)
    (hhandle : node.value.asHandle = .ofId id) :
    (⟨n, .reference⟩ : DataNode).value m =
      .ok (.view (⟨.ofId id, .host, .reference⟩ : Container c)) := by
  obtain ⟨kind, hkind, hcategory⟩ := Option.bind_eq_some_iff.mp hc
  have hadopted : Container.adopt c .reference (.ofId id) .host =
      .ok ⟨.ofId id, .host, .reference⟩ :=
    if_neg (by simp [Handle.isNull, Handle.ofId, addressOf])
  rw [value_of_category hnode hkind hcategory, hhandle, hadopted]
  rfl

/-- What is read as a view is the node of an object. -/
theorem exists_node_of_view {k : Container c}
    (h : (⟨n, .reference⟩ : DataNode).value m = .ok (.view k)) :
    ∃ node, m.node? n = some node ∧ nestedCategory? node.code = some c ∧
      k.handle = node.value.asHandle := by
  cases hnode : m.node? n with
  | none => simp [DataNode.value, nodeValue_of_no_node? hnode] at h
  | some node =>
    refine ⟨node, rfl, ?_⟩
    have hstored := nodeValue_of_node? hnode
    have hcode := code_of_node? hnode
    unfold nestedCategory?
    cases hkind : ArgumentKind.ofCode? node.code with
    | none => simp [DataNode.value, DataNode.kind?, hstored, hcode, hkind] at h
    | some kind =>
      cases hcategory : kind.category? with
      | none =>
        -- plain values are not views
        rcases hplain : Plain.read kind node.value with _ | _ | plain <;>
          simp [DataNode.value, DataNode.kind?, hstored, hcode, hkind, hcategory, hplain,
            Except.map] at h
      | some c' =>
        rw [value_of_category hnode hkind hcategory, Container.adopt] at h
        split at h
        · cases h
        · cases h
          exact ⟨hcategory, rfl⟩

end Reading

theorem Orderly.inOrder (hm : m.Orderly) : m.InOrder where
  increasing id l hl := by
    rw [hm.tabled.lists id l hl]
    exact m.pairwise_positions id
  once id l n hl hn := by
    refine List.count_eq_one_of_mem ?_ hn
    rw [hm.tabled.lists id l hl]
    exact m.nodup_positions id
  apart id id' l l' n hl hl' hn hn' := by
    obtain ⟨node, hnode, rfl⟩ := hm.tabled.exists_node hl hn
    obtain ⟨node', hnode', rfl⟩ := hm.tabled.exists_node hl' hn'
    rw [Option.some.inj (hnode.symm.trans hnode')]
  own id l n hl hn := hm.tabled.exists_node hl hn
  listed n node hnode hlive := by
    obtain ⟨l, hl⟩ := (hm.proper_getElem? hnode).list.exists_list hlive
    refine ⟨l, hl, ?_⟩
    rw [hm.tabled.lists _ l hl]
    exact mem_positions_iff.mpr ⟨node, hnode, rfl⟩
  kind n node hnode := (hm.proper_getElem? hnode).kind
  held n node c hnode hc := (hm.proper_getElem? hnode).held c hc
  shown n node c hnode hc hlive := by
    obtain ⟨l, hl⟩ := (hm.proper_getElem? hnode).list.exists_list hlive
    obtain ⟨id, hhandle, hid⟩ := (hm.proper_getElem? hnode).held c hc
    exact ⟨id, value_of_nested (node?_of_live hnode hl) hc hhandle, hid⟩
  view n c k hview := by
    obtain ⟨node, hnode, hc, hhandle⟩ := exists_node_of_view hview
    obtain ⟨i, -, hget⟩ := Option.bind_eq_some_iff.mp (Option.filter_eq_some_iff.mp hnode).1
    rw [hhandle]
    exact (hm.proper_getElem? hget).held c hc

end Memory

end Custody
