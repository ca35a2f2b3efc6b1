import Custody.Proofs.Memory.Copy
import Custody.Proofs.Memory.NodeTable
import Mathlib.Logic.Relation

/-!
# Lists in a circle

A list is in a circle if it holds something that leads back to it.  Two things can be done to the
nesting of lists.  A node is appended, and then a circle is closed exactly if what the node holds
leads to the list of the node (`Memory.circular_pushNode_iff`).  Or objects are copied: copies hold
nothing but copies that were issued after them, whether the copying succeeds or not
(`Memory.rises_copyWithin`), so they close no circle, and whatever else happens to the memory along
with it only opens circles (`Memory.Rises.of_circular`).
-/

namespace Custody

namespace Memory

open Relation

variable {m m' m'' : Memory}

/-! ## Circles -/

/-- One object holds another. -/
def Holds (m : Memory) (a b : Nat) : Prop := b ∈ m.holdings a

/-- The object holds something that leads back to it. -/
def Circular (m : Memory) (id : Nat) : Prop := ∃ held ∈ m.holdings id, m.Reaches held id

theorem acyclic_iff {root : Nat} :
    m.Acyclic root ↔ ∀ id, m.Reaches root id → ¬ m.Circular id := by
  simp [Acyclic, Circular]

/-- Everything on a path but its end holds something, so only the end has to be known as live. -/
theorem reaches_iff {a b : Nat} : m.Reaches a b ↔ ReflTransGen m.Holds a b ∧ m.Live b := by
  constructor
  · intro h
    refine ⟨?_, h.live⟩
    induction h with
    | root _ => exact .refl
    | step _ holds _ ih => exact .tail ih holds
  · rintro ⟨hpath, hlive⟩
    induction hpath using ReflTransGen.head_induction_on with
    | refl => exact .root hlive
    | head holds _ ih => exact .head holds ih

theorem circular_iff {id : Nat} : m.Circular id ↔ TransGen m.Holds id id := by
  rw [TransGen.head'_iff]
  constructor
  · rintro ⟨held, hheld, hback⟩
    exact ⟨held, hheld, (reaches_iff.mp hback).1⟩
  · rintro ⟨held, hheld, hback⟩
    exact ⟨held, hheld, reaches_iff.mpr ⟨hback, live_of_mem_holdings hheld⟩⟩

/-! ## One more node -/

/-- A path along a relation with one more pair uses the old pairs only, or it leads to the pair and
on from it. -/
private theorem transGen_of_add {r r' : Nat → Nat → Prop} {x y : Nat}
    (h : ∀ a b, r' a b → r a b ∨ a = x ∧ b = y) {a b : Nat} (hpath : TransGen r' a b) :
    TransGen r a b ∨ ReflTransGen r a x ∧ ReflTransGen r y b := by
  induction hpath with
  | single hlast =>
    rcases h _ _ hlast with hold | ⟨rfl, rfl⟩
    · exact .inl (.single hold)
    · exact .inr ⟨.refl, .refl⟩
  | tail _ hlast ih =>
    rcases h _ _ hlast with hold | ⟨rfl, rfl⟩
    · exact ih.imp (.tail · hold) fun ⟨hto, hfrom⟩ => ⟨hto, .tail hfrom hold⟩
    -- the new pair comes last, and what came before it matters only as far as its first use
    · rcases ih with hbefore | ⟨hto, -⟩
      · exact .inr ⟨hbefore.to_reflTransGen, .refl⟩
      · exact .inr ⟨hto, .refl⟩

/-- What a list holds can be read off the node table. -/
theorem holds_iff (hm : m.Tabled) {a b : Nat} :
    m.Holds a b ↔ (∃ l, m.object? a = some (.list l)) ∧
      ∃ node ∈ m.nodes.toList, node.list = a ∧ nestedIn node = some b := by
  rw [Holds, mem_holdings_iff]
  constructor
  · rintro ⟨l, n, node, hl, hn, hnode, hnested⟩
    obtain ⟨other, hother, hlist⟩ := hm.exists_node hl hn
    obtain rfl : node = other := Option.some.inj (hnode.symm.trans hother)
    exact ⟨⟨l, hl⟩, node, Array.mem_toList_iff.mpr (Array.mem_of_getElem? hnode), hlist, hnested⟩
  · rintro ⟨⟨l, hl⟩, node, hmem, hlist, hnested⟩
    obtain ⟨n, hn, hget⟩ := Array.mem_iff_getElem.mp (Array.mem_toList_iff.mp hmem)
    have hnode : m.nodes[n]? = some node := by rw [Array.getElem?_eq_getElem hn, hget]
    refine ⟨l, n, node, hl, ?_, hnode, hnested⟩
    rw [hm.lists a l hl]
    exact mem_positions_iff.mpr ⟨node, hnode, hlist⟩

/-- With a node that is appended to a live list, the list holds what the node holds. -/
theorem holds_pushNode_iff (hm : m.Tabled) {node : Node} {l : ListObject}
    (hl : m.object? node.list = some (.list l)) {a b : Nat} :
    (m.pushNode node).Holds a b ↔ m.Holds a b ∨ a = node.list ∧ nestedIn node = some b := by
  have hpushed : (m.pushNode node).Tabled :=
    Evolves.tabled (.append .refl node (Live.of_object hl).lt_size) hm
  have hlists : (∃ l, (m.pushNode node).object? a = some (.list l)) ↔
      ∃ l, m.object? a = some (.list l) := by
    simp only [object?_pushNode_eq_list_iff]
    constructor
    · rintro ⟨l, l', hl', -⟩
      exact ⟨l', hl'⟩
    · rintro ⟨l', hl'⟩
      exact ⟨⟨_⟩, l', hl', rfl⟩
  rw [holds_iff hpushed, holds_iff hm, hlists, nodes_pushNode, Array.toList_push]
  simp only [List.mem_append, List.mem_singleton, or_and_right, exists_or, exists_eq_left,
    and_or_left]
  constructor
  · rintro (hold | ⟨-, rfl, hnested⟩)
    · exact .inl hold
    · exact .inr ⟨rfl, hnested⟩
  · rintro (hold | ⟨rfl, hnested⟩)
    · exact .inl hold
    · exact .inr ⟨⟨l, hl⟩, rfl, hnested⟩

/-- A node closes a circle if what it holds leads to its list, and in no other way.  All that is
in the circle lies on the way from what the node holds to the list. -/
theorem circular_pushNode_iff (hm : m.Tabled) {node : Node} {l : ListObject}
    (hl : m.object? node.list = some (.list l)) {id : Nat} :
    (m.pushNode node).Circular id ↔
      m.Circular id ∨
        ∃ held, nestedIn node = some held ∧ m.Reaches held id ∧ m.Reaches id node.list := by
  have hadded : ∀ {a b}, (m.pushNode node).Holds a b →
      m.Holds a b ∨ a = node.list ∧ nestedIn node = some b := (holds_pushNode_iff hm hl).mp
  have hkept : ∀ {a b}, m.Holds a b → (m.pushNode node).Holds a b :=
    fun hholds => (holds_pushNode_iff hm hl).mpr (.inl hholds)
  rw [circular_iff, circular_iff]
  constructor
  · intro hcircle
    cases hnested : nestedIn node with
    | none =>
      refine .inl (TransGen.mono (fun a b hholds => ?_) _ _ hcircle)
      exact (hadded hholds).resolve_right fun hnew => by simp [hnested] at hnew
    | some held =>
      have hpair : ∀ a b, (m.pushNode node).Holds a b →
          m.Holds a b ∨ a = node.list ∧ b = held := by
        intro a b hholds
        refine (hadded hholds).imp_right fun ⟨ha, hb⟩ => ⟨ha, ?_⟩
        exact (Option.some.inj (hnested.symm.trans hb)).symm
      refine (transGen_of_add hpair hcircle).imp_right fun ⟨hto, hfrom⟩ => ?_
      have hreach : m.Reaches id node.list := reaches_iff.mpr ⟨hto, Live.of_object hl⟩
      exact ⟨held, rfl, reaches_iff.mpr ⟨hfrom, hreach.live_root⟩, hreach⟩
  · rintro (hcircle | ⟨held, hnested, hfrom, hto⟩)
    · exact TransGen.mono (fun _ _ => hkept) _ _ hcircle
    · have hnew : (m.pushNode node).Holds node.list held :=
        (holds_pushNode_iff hm hl).mpr (.inr ⟨rfl, hnested⟩)
      have hback := ReflTransGen.mono (fun _ _ => hkept) _ _ (reaches_iff.mp hto).1
      have hforth := ReflTransGen.mono (fun _ _ => hkept) _ _ (reaches_iff.mp hfrom).1
      exact (TransGen.tail' hback hnew).trans_left hforth

/-! ## Nodes that rise -/

/-- All nodes that were added since lie in lists from a number on, and what they hold has been
issued, though later than their lists. -/
structure Rises (base : Nat) (m m' : Memory) : Prop where
  nodes : m.NodesIn m'
  issued : m.allocations.size ≤ m'.allocations.size
  added : ∀ n node, m.nodes.size ≤ n → m'.nodes[n]? = some node →
    base ≤ node.list ∧
      ∀ held, nestedIn node = some held → node.list < held ∧ held < m'.allocations.size

namespace Rises

variable {base base' : Nat}

theorem of_nodes_eq (nodes : m'.nodes = m.nodes)
    (issued : m.allocations.size ≤ m'.allocations.size) : Rises base m m' where
  nodes n node hnode := nodes ▸ hnode
  issued := issued
  added n node hn hnode := by
    have hlt : n < m'.nodes.size := (Array.getElem?_eq_some_iff.mp hnode).1
    rw [nodes] at hlt
    omega

theorem refl (m : Memory) : Rises base m m := of_nodes_eq rfl le_rfl

/-- Where nothing is appended, nothing rises. -/
theorem of_evolves {gone : Set Nat} (h : m.Evolves [] gone m') : Rises base m m' := by
  apply of_nodes_eq _ h.size_le
  rw [← Array.toList_inj, h.nodes_eq, List.append_nil]

theorem trans (h : Rises base m m') (h' : Rises base' m' m'') (hbase : base ≤ base') :
    Rises base m m'' where
  nodes n node hnode := h'.nodes n node (h.nodes n node hnode)
  issued := h.issued.trans h'.issued
  added n node hn hnode := by
    by_cases hlater : m'.nodes.size ≤ n
    · obtain ⟨hlist, hheld⟩ := h'.added n node hlater hnode
      exact ⟨hbase.trans hlist, hheld⟩
    · -- the node is one of those that were added first
      have hget := Array.getElem?_eq_getElem (not_le.mp hlater)
      obtain rfl : m'.nodes[n] = node :=
        Option.some.inj ((h'.nodes n _ hget).symm.trans hnode)
      obtain ⟨hlist, hheld⟩ := h.added n _ hn hget
      exact ⟨hlist, fun held hnested =>
        ⟨(hheld held hnested).1, (hheld held hnested).2.trans_le h'.issued⟩⟩

theorem weaken (h : Rises base' m m') (hbase : base ≤ base') : Rises base m m' :=
  (refl m).trans h hbase

theorem pushNode {node : Node} (hlist : base ≤ node.list)
    (hheld : ∀ held, nestedIn node = some held → node.list < held ∧ held < m.allocations.size) :
    Rises base m (m.pushNode node) where
  nodes := (Grows.pushNode m node).nodes
  issued := (size_pushNode m node).ge
  added n other hn hother := by
    rw [nodes_pushNode, Array.getElem?_push] at hother
    split at hother
    case isTrue =>
      obtain rfl := Option.some.inj hother
      rw [size_pushNode]
      exact ⟨hlist, hheld⟩
    case isFalse hne =>
      have hlt : n < m.nodes.size := (Array.getElem?_eq_some_iff.mp hother).1
      omega

end Rises

/-- Whatever a node names has been issued, and it is not the list of the node. -/
def NamesOthers (m : Memory) : Prop :=
  ∀ node ∈ m.nodes.toList, ∀ held, nestedIn node = some held →
    held < m.allocations.size ∧ held ≠ node.list

/-- Nodes that rise name something above their own lists. -/
theorem NamesOthers.of_rises {base : Nat} (hm : m.NamesOthers) (h : Rises base m m') :
    m'.NamesOthers := by
  intro node hnode held hheld
  obtain ⟨n, hn, rfl⟩ := Array.mem_iff_getElem.mp (Array.mem_toList_iff.mp hnode)
  have hget : m'.nodes[n]? = some m'.nodes[n] := Array.getElem?_eq_getElem hn
  by_cases hnew : m.nodes.size ≤ n
  · obtain ⟨hless, hissued⟩ := (h.added n _ hnew hget).2 held hheld
    exact ⟨hissued, hless.ne'⟩
  · have hold := Array.getElem?_eq_getElem (not_le.mp hnew)
    have hsame : m.nodes[n] = m'.nodes[n] :=
      Option.some.inj ((h.nodes n _ hold).symm.trans hget)
    rw [← hsame] at hheld ⊢
    obtain ⟨hissued, hne⟩ := hm _ (Array.getElem_mem_toList _) held hheld
    exact ⟨hissued.trans_le h.issued, hne⟩

/-! ## Copies rise -/

/-- An action that copies objects: it only adds, whether it succeeds or not, and what it adds
rises. -/
structure CopiesUpward (copy : Nat → Memory → Option Nat × Memory) : Prop where
  grows : ∀ id (m : Memory), m.Grows ∅ (copy id m).2
  rises : ∀ id (m : Memory), Rises m.allocations.size m (copy id m).2
  made : ∀ id (m : Memory) made, (copy id m).1 = some made →
    m.allocations.size ≤ made ∧ made < (copy id m).2.allocations.size

section Copying

variable {copy : Nat → Memory → Option Nat × Memory} {base target : Nat}

theorem rises_copyNode (hcopy : CopiesUpward copy) (hbase : base ≤ target) (node : Node)
    (htarget : target < m.allocations.size) :
    m.Grows {target} (copyNode copy target node m).2 ∧
      Rises base m (copyNode copy target node m).2 := by
  unfold copyNode
  split
  case h_1 hplain =>
    refine ⟨.pushNode m { node with list := target }, .pushNode hbase fun held hnested => ?_⟩
    simp [nestedIn, hplain] at hnested
  case h_2 =>
    split
    case h_1 => exact ⟨.refl m _, .refl m⟩
    case h_2 held _ =>
      have hgrows := hcopy.grows held m
      have hrises := (hcopy.rises held m).weaken (hbase.trans htarget.le)
      have hmade := hcopy.made held m
      rcases hresult : copy held m with ⟨_ | made, m'⟩
      · rw [hresult] at hgrows hrises
        exact ⟨hgrows.weaken, hrises⟩
      · rw [hresult] at hgrows hrises hmade
        obtain ⟨hnew, hissued⟩ := hmade made rfl
        refine ⟨hgrows.weaken.trans (.pushNode m' { node with list := target, value := _ }),
          hrises.trans (.pushNode hbase fun other hnested => ?_) le_rfl⟩
        -- the copy was made after the list that it is appended to
        obtain ⟨_, -, hhandle⟩ := Option.bind_eq_some_iff.mp hnested
        obtain rfl : made = other := by simpa [Payload.asHandle] using hhandle
        exact ⟨htarget.trans_le hnew, hissued⟩

private theorem rises_copyNodes (hcopy : CopiesUpward copy) (hbase : base ≤ target) (ns : List Nat)
    (htarget : target < m.allocations.size) :
    m.Grows {target} (copyNodes copy target ns m).2 ∧
      Rises base m (copyNodes copy target ns m).2 := by
  induction ns generalizing m with
  | nil => exact ⟨.refl m _, .refl m⟩
  | cons n ns ih =>
    unfold copyNodes
    cases hnode : m.nodes[n]? with
    | none => exact ⟨.refl m _, .refl m⟩
    | some node =>
      obtain ⟨hgrows, hrises⟩ := rises_copyNode hcopy hbase node htarget
      rcases hresult : copyNode copy target node m with ⟨_ | _, m'⟩
      · rw [hresult] at hgrows hrises
        simp only [hresult]
        exact ⟨hgrows, hrises⟩
      · rw [hresult] at hgrows hrises
        obtain ⟨hgrows', hrises'⟩ := ih (htarget.trans_le hrises.issued)
        simp only [hresult]
        exact ⟨hgrows.trans hgrows', hrises.trans hrises' le_rfl⟩

end Copying

/-- Copies rise, within any number of levels and whether these are enough or not. -/
theorem rises_copyWithin (depth : Nat) : CopiesUpward (copyWithin depth) := by
  induction depth with
  | zero => exact ⟨fun _ m => .refl m _, fun _ m => .refl m, fun _ _ _ hmade => by cases hmade⟩
  | succ depth ih =>
    have hcopied : ∀ id (m : Memory),
        m.Grows ∅ (copyWithin (depth + 1) id m).2 ∧
          Rises m.allocations.size m (copyWithin (depth + 1) id m).2 ∧
          ∀ made, (copyWithin (depth + 1) id m).1 = some made →
            m.allocations.size ≤ made ∧
              made < (copyWithin (depth + 1) id m).2.allocations.size := by
      intro id m
      have hissued : ∀ object, Rises m.allocations.size m (m.issue object).2 := fun object =>
        .of_nodes_eq rfl (by simp)
      unfold copyWithin
      cases hobject : m.object? id with
      | none => exact ⟨.refl m _, .refl m, by simp⟩
      | some object =>
        cases object with
        | list l =>
          -- the list is issued first, so it lies below all that is copied into it
          have htarget : m.allocations.size < (m.issue (.list ⟨[]⟩)).2.allocations.size := by simp
          obtain ⟨hgrows, hrises⟩ := rises_copyNodes ih le_rfl l.nodes htarget
          have hboth := (hissued (.list ⟨[]⟩)).trans hrises le_rfl
          have hnew := (Grows.issue m (.list ⟨[]⟩)).of_new hgrows (by simp)
          have hmade := htarget.trans_le hrises.issued
          simp only [issue_fst]
          rcases hresult : copyNodes (copyWithin depth) m.allocations.size l.nodes
            (m.issue (.list ⟨[]⟩)).2 with ⟨_ | _, m'⟩
          · rw [hresult] at hboth hnew
            exact ⟨hnew, hboth, by simp⟩
          · rw [hresult] at hboth hnew hmade
            refine ⟨hnew, hboth, ?_⟩
            rintro made ⟨⟩
            exact ⟨le_rfl, hmade⟩
        | array a => exact ⟨.issue m _, hissued _, by simp⟩
        | image i => exact ⟨.issue m _, hissued _, by simp⟩
    exact ⟨fun id m => (hcopied id m).1, fun id m => (hcopied id m).2.1,
      fun id m => (hcopied id m).2.2⟩

/-- A copy that a host is asked for rises, whether it is refused, stops half way, or succeeds. -/
theorem rises_cloneIf (m : Memory) (accepts : Object → Bool) (h : Handle) :
    Rises m.allocations.size m (m.cloneIf accepts h).2 := by
  unfold cloneIf
  split
  · exact .of_nodes_eq rfl le_rfl
  · split
    case h_1 id object hid hfound =>
      have hcopied : Rises m.allocations.size m (m.copy id).2 :=
        (rises_copyWithin m.allocations.size).rises id m
      rcases hresult : m.copy id with ⟨_ | made, m'⟩
      · simpa only [hresult] using hcopied
      · rw [hresult] at hcopied
        exact hcopied.trans (.of_nodes_eq rfl le_rfl) le_rfl
    case h_2 => exact .refl m

/-! ## Circles are not closed where nodes rise -/

section Evolving

variable {added : List Node} {gone : Set Nat}

/-- What is held after a change was held before, or a node was appended for it. -/
theorem Evolves.holds (h : m.Evolves added gone m') (hm : m.Tabled) {a b : Nat}
    (hholds : m'.Holds a b) :
    m.Holds a b ∨ ∃ node ∈ added, node.list = a ∧ nestedIn node = some b := by
  obtain ⟨l, n, node, hl, hn, hnode, hnested⟩ := mem_holdings_iff.mp hholds
  rcases h.added_or_before hl hn hnode with hnew | ⟨l', hl', hn', hnode'⟩
  · obtain ⟨other, hother, hlist⟩ := (h.tabled hm).exists_node hl hn
    obtain rfl : node = other := Option.some.inj (hnode.symm.trans hother)
    exact .inr ⟨node, hnew, hlist, hnested⟩
  · exact .inl (mem_holdings_iff.mpr ⟨l', n, node, hl', hn', hnode', hnested⟩)

/-- A node that was appended has a number from then on. -/
private theorem Evolves.exists_number (h : m.Evolves added gone m') {node : Node}
    (hnode : node ∈ added) : ∃ n, m.nodes.size ≤ n ∧ m'.nodes[n]? = some node := by
  obtain ⟨i, hi⟩ := List.mem_iff_getElem?.mp hnode
  refine ⟨m.nodes.size + i, Nat.le_add_right _ i, ?_⟩
  rw [← Array.getElem?_toList, h.nodes_eq, List.getElem?_append_right (by simp)]
  simpa using hi

/-- Pairs that were added rise from what is new, and so they lie in no circle. -/
private theorem transGen_of_rising {r r' : Nat → Nat → Prop} {base : Nat}
    (hold : ∀ a b, r a b → a < base)
    (h : ∀ a b, r' a b → r a b ∨ base ≤ a ∧ a < b) {a b : Nat} (hpath : TransGen r' a b) :
    TransGen r a b ∨ base ≤ b ∧ (base ≤ a → a < b) := by
  induction hpath with
  | single hlast => exact (h _ _ hlast).imp .single fun hnew => ⟨by omega, fun _ => hnew.2⟩
  | tail _ hlast ih =>
    rcases h _ _ hlast with hlast | ⟨hnew, hless⟩
    · refine .inl (ih.elim (.tail · hlast) fun hrisen => ?_)
      exact absurd (hold _ _ hlast) (not_lt.mpr hrisen.1)
    · refine .inr ⟨by omega, fun ha => ?_⟩
      rcases ih with hbefore | ⟨-, hrisen⟩
      · obtain ⟨_, hfirst, -⟩ := TransGen.head'_iff.mp hbefore
        exact absurd (hold _ _ hfirst) (not_lt.mpr ha)
      · exact (hrisen ha).trans hless

/-- Where nodes rise, no circle is closed. -/
theorem Rises.of_circular (h : Rises m.allocations.size m m') (hevolves : m.Evolves added gone m')
    (hm : m.Tabled) {id : Nat} (hcircle : m'.Circular id) : m.Circular id := by
  have hadded : ∀ a b, m'.Holds a b → m.Holds a b ∨ m.allocations.size ≤ a ∧ a < b := by
    intro a b hholds
    refine (hevolves.holds hm hholds).imp_right ?_
    rintro ⟨node, hnode, rfl, hnested⟩
    obtain ⟨n, hn, hget⟩ := hevolves.exists_number hnode
    obtain ⟨hlist, hheld⟩ := h.added n node hn hget
    exact ⟨hlist, (hheld b hnested).1⟩
  have hold : ∀ a b, m.Holds a b → a < m.allocations.size := fun a b hholds =>
    (live_of_mem_holdings hholds).lt_size
  rw [circular_iff] at hcircle ⊢
  refine (transGen_of_rising hold hadded hcircle).resolve_right fun ⟨hnew, hless⟩ => ?_
  exact lt_irrefl _ (hless hnew)

end Evolving

end Memory

end Custody
