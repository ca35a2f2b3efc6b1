import Custody.Proofs.Memory.Copy
import Mathlib.Algebra.BigOperators.Group.Finset.Basic
import Mathlib.Algebra.Order.BigOperators.Group.Finset
import Mathlib.Algebra.Order.Group.Multiset
import Mathlib.Data.Multiset.Bind

/-!
# Accounts

A memory is accounted for by a collection of numbers, its roots, if every live object has exactly one
custodian: it is a root, or one node of one live list holds it.  Nobody holds what is dead, and
everything that is live is reached from a root, so no lists keep each other alive in a circle.

What a host does to a memory moves the accounts in one of four ways.  An object that is issued or
copied is a new root (`Accounted.graft`), one that is released is a root no longer (`Accounted.cut`),
one that is appended to a list goes from the roots to the nodes (`Accounted.pushNode`), and anything
else leaves the accounts as they are (`Accounted.congr`).
-/

namespace Custody

namespace Memory

/-! ## What is held -/

/-- What the nodes of live lists hold, each object as often as it is held. -/
def held (m : Memory) : Multiset Nat := ∑ id ∈ m.liveIds, (m.holdings id : Multiset Nat)

theorem mem_held {m : Memory} {id : Nat} : id ∈ m.held ↔ ∃ holder, id ∈ m.holdings holder := by
  simp only [held, Multiset.mem_sum, mem_liveIds, Multiset.mem_coe]
  constructor
  · rintro ⟨holder, -, hholds⟩
    exact ⟨holder, hholds⟩
  · rintro ⟨holder, hholds⟩
    exact ⟨holder, live_of_mem_holdings hholds, hholds⟩

/-- What two objects hold together is part of what is held. -/
private theorem add_holdings_le_held {m : Memory} {a b : Nat} (hab : a ≠ b) (ha : m.Live a)
    (hb : m.Live b) : (m.holdings a : Multiset Nat) + m.holdings b ≤ m.held := by
  have hpair : ∑ id ∈ {a, b}, (m.holdings id : Multiset Nat) =
      (m.holdings a : Multiset Nat) + m.holdings b := Finset.sum_pair hab
  rw [← hpair]
  apply Finset.sum_le_sum_of_subset
  intro id hid
  rw [mem_liveIds]
  rcases Finset.mem_insert.mp hid with rfl | hid
  · exact ha
  · exact Finset.mem_singleton.mp hid ▸ hb

/-- Only lists hold anything. -/
theorem holdings_of_not_list {m : Memory} {id : Nat} (h : ∀ l, m.object? id ≠ some (.list l)) :
    m.holdings id = [] := by
  cases hobject : m.object? id with
  | none => exact holdings_of_none hobject
  | some object =>
    apply holdings_of_buffer hobject
    rintro l rfl
    exact h l hobject

/-! ## Lists that can be read -/

/-- All nodes of an object are there, and those that are to hold an object name one. -/
def Legible (m : Memory) (id : Nat) : Prop :=
  ∀ l, m.object? id = some (.list l) → ∀ n ∈ l.nodes,
    ∃ node, m.nodes[n]? = some node ∧
      (nestedCategory? node.code ≠ none → ∃ held, nestedIn node = some held)

/-- What can be read can be read in a memory with more nodes, and holds the same. -/
theorem Legible.of_nodesIn {m m' : Memory} {id : Nat} (h : m.Legible id) (hnodes : m.NodesIn m')
    (hobject : m'.object? id = m.object? id) :
    m'.Legible id ∧ m'.holdings id = m.holdings id := by
  constructor
  · intro l hl n hn
    obtain ⟨node, hnode, hheld⟩ := h l (hobject ▸ hl) n hn
    exact ⟨node, hnodes n node hnode, hheld⟩
  · cases hplace : m.object? id with
    | none => rw [holdings_of_none hplace, holdings_of_none (hobject.trans hplace)]
    | some object =>
      rcases list_or_buffer object with ⟨l, rfl⟩ | hbuffer
      · rw [holdings_of_list hplace, holdings_of_list (hobject.trans hplace)]
        apply List.filterMap_congr
        intro n hn
        obtain ⟨node, hnode, -⟩ := h l hplace n hn
        rw [heldAt?_of_node hnode, heldAt?_of_node (hnodes n node hnode)]
      · rw [holdings_of_buffer hplace hbuffer, holdings_of_buffer (hobject.trans hplace) hbuffer]

/-- Only the list that a node is appended to changes. -/
theorem Legible.pushNode {m : Memory} {id : Nat} (h : m.Legible id) {node : Node}
    (hid : id ≠ node.list) :
    (m.pushNode node).Legible id ∧ (m.pushNode node).holdings id = m.holdings id :=
  h.of_nodesIn (Grows.pushNode m node).nodes (by rw [object?_pushNode, if_neg hid.symm])

/-- What has an unfolding can be read. -/
theorem legible_of_unfoldWithin {depth : Nat} {m : Memory} {id : Nat} {unfolding : Unfolding}
    (h : unfoldWithin depth m id = some unfolding) : m.Legible id := by
  intro l hl n hn
  cases depth with
  | zero => cases h
  | succ depth =>
    rcases unfoldWithin_succ_eq_some_iff.mp h with
      ⟨l', entries, hl', hentries, -⟩ | ⟨object, hobject, hbuffer, -⟩
    · obtain rfl : l = l' := by simpa [hl] using hl'
      obtain ⟨entry, hentry⟩ := exists_of_mapM_eq_some hentries n hn
      obtain ⟨node, hnode, hread⟩ := Option.bind_eq_some_iff.mp hentry
      refine ⟨node, hnode, fun hcode => ?_⟩
      rcases entryOf?_eq_some_iff.mp hread with ⟨hplain, -⟩ | ⟨held, _, hheld, -⟩
      · exact absurd hplain hcode
      · exact ⟨held, hheld⟩
    · exact absurd (Option.some.inj (hobject.symm.trans hl)) (hbuffer l)

/-- What occurs in an unfolding has an unfolding of its own. -/
theorem exists_unfoldWithin_of_mem {depth : Nat} {m : Memory} {root id : Nat}
    {unfolding : Unfolding} (h : unfoldWithin depth m root = some unfolding)
    (hid : id ∈ occurrencesWithin depth m root) :
    ∃ below unfolding, unfoldWithin below m id = some unfolding := by
  induction depth generalizing root unfolding with
  | zero => cases h
  | succ depth ih =>
    rw [occurrencesWithin_succ (live_of_unfoldWithin h)] at hid
    rcases List.mem_cons.mp hid with rfl | hbelow
    · exact ⟨_, _, h⟩
    · obtain ⟨held, hheld, hid⟩ := List.mem_flatMap.mp hbelow
      obtain ⟨_, hunfold⟩ := held_unfolds h hheld
      exact ih hunfold hid

/-- What the occurrences of an unfolding hold are the occurrences, but for the first. -/
theorem cons_holdings_occurrencesWithin {depth : Nat} {m : Memory} {root : Nat}
    {unfolding : Unfolding} (h : unfoldWithin depth m root = some unfolding) :
    root ::ₘ ((occurrencesWithin depth m root).flatMap m.holdings : Multiset Nat) =
      (occurrencesWithin depth m root : Multiset Nat) := by
  induction depth generalizing root unfolding with
  | zero => cases h
  | succ depth ih =>
    -- the occurrences below are counted for one object held after another
    have hbelow : ∀ heldIds : List Nat, (∀ held ∈ heldIds, held ∈ m.holdings root) →
        (heldIds : Multiset Nat) +
            ((heldIds.flatMap (occurrencesWithin depth m)).flatMap m.holdings : Multiset Nat) =
          (heldIds.flatMap (occurrencesWithin depth m) : Multiset Nat) := by
      intro heldIds hmem
      induction heldIds with
      | nil => rfl
      | cons held rest ihRest =>
        obtain ⟨_, hunfold⟩ := held_unfolds h (hmem held (by simp))
        have hfirst := ih hunfold
        have hrest := ihRest fun other hother => hmem other (by simp [hother])
        rw [List.flatMap_cons, List.flatMap_append, ← Multiset.coe_add, ← Multiset.coe_add,
          ← Multiset.cons_coe, ← hfirst, ← hrest]
        simp only [← Multiset.singleton_add]
        exact add_add_add_comm _ _ _ _
    rw [occurrencesWithin_succ (live_of_unfoldWithin h), List.flatMap_cons, ← Multiset.coe_add,
      ← Multiset.cons_coe, hbelow _ fun _ hmem => hmem]

/-! ## Accounts -/

/-- The memory is accounted for by its roots. -/
structure Accounted (m : Memory) (roots : Multiset Nat) : Prop where
  legible : ∀ id, m.Legible id
  /-- Every live object has one custodian: it is a root once, or it is held once. -/
  ledger : roots + m.held = m.liveIds.val
  rooted : ∀ id, m.Live id → ∃ root ∈ roots, m.Reaches root id
  unshared : ∀ id, m.Live id → m.shares (.ofId id) = 0
  clean : m.counters.doubleFrees = 0

theorem accounted_empty : ({} : Memory).Accounted 0 where
  legible id l hl := by simp [object?] at hl
  ledger := rfl
  rooted id hlive := by simp [Live, object?] at hlive
  unshared id hlive := by simp [Live, object?] at hlive
  clean := rfl

namespace Accounted

variable {m m' : Memory} {roots : Multiset Nat}

theorem live_of_root (h : m.Accounted roots) {root : Nat} (hroot : root ∈ roots) : m.Live root := by
  have hmem : root ∈ m.liveIds.val := h.ledger ▸ Multiset.mem_add.mpr (.inl hroot)
  exact mem_liveIds.mp hmem

theorem live_of_held (h : m.Accounted roots) {holder id : Nat} (hholds : id ∈ m.holdings holder) :
    m.Live id := by
  have hmem : id ∈ m.liveIds.val :=
    h.ledger ▸ Multiset.mem_add.mpr (.inr (mem_held.mpr ⟨holder, hholds⟩))
  exact mem_liveIds.mp hmem

private theorem nodup (h : m.Accounted roots) : (roots + m.held).Nodup := by
  rw [h.ledger]
  exact m.liveIds.nodup

/-- A root is not held. -/
theorem notMem_holdings (h : m.Accounted roots) {root : Nat} (hroot : root ∈ roots)
    (holder : Nat) : root ∉ m.holdings holder := by
  intro hholds
  have hdisjoint := (Multiset.nodup_add.mp h.nodup).2.2
  exact Multiset.disjoint_left.mp hdisjoint hroot (mem_held.mpr ⟨holder, hholds⟩)

/-- An object is held by one object only. -/
theorem holder_unique (h : m.Accounted roots) {a b id : Nat} (ha : id ∈ m.holdings a)
    (hb : id ∈ m.holdings b) : a = b := by
  by_contra hab
  -- two holders would hold it twice, and nothing is counted twice
  have hle : (m.holdings a : Multiset Nat) + m.holdings b ≤ roots + m.held :=
    (add_holdings_le_held hab (live_of_mem_holdings ha) (live_of_mem_holdings hb)).trans
      (Multiset.le_add_left _ _)
  have hboth := Multiset.nodup_add.mp (Multiset.nodup_of_le hle h.nodup)
  exact Multiset.disjoint_left.mp hboth.2.2 ha hb

/-- A root is reached from itself alone. -/
theorem eq_of_reaches_root (h : m.Accounted roots) {a root : Nat} (hroot : root ∈ roots)
    (hreach : m.Reaches a root) : a = root := by
  cases hreach with
  | root _ => rfl
  | step _ holds _ => exact absurd holds (h.notMem_holdings hroot _)

/-- An object is reached from one root only. -/
theorem root_unique (h : m.Accounted roots) {a b id : Nat} (ha : a ∈ roots) (hb : b ∈ roots)
    (hreachA : m.Reaches a id) (hreachB : m.Reaches b id) : a = b := by
  -- the two paths are taken back step by step; they come from the same holder each time
  induction hreachA with
  | root _ => exact (h.eq_of_reaches_root ha hreachB).symm
  | step _ holds _ ih =>
    cases hreachB with
    | root _ => exact absurd holds (h.notMem_holdings hb _)
    | step path holds' _ =>
      obtain rfl := h.holder_unique holds holds'
      exact ih path

/-- Whatever lies on a circle has its holder on the circle, and so nothing on it is reached from a
root. -/
theorem acyclic (h : m.Accounted roots) (start : Nat) : m.Acyclic start := by
  intro id hid held hheld hback
  -- `id` and `held` lie on a circle: what lies on it is reached from `held` and reaches `id`
  have hcircle : ∀ a, m.Reaches held a → m.Reaches a id →
      ∃ b, a ∈ m.holdings b ∧ m.Reaches held b ∧ m.Reaches b id := by
    intro a hfrom hto
    cases hfrom with
    | root _ => exact ⟨id, hheld, hback, .root hid.live⟩
    | step path holds _ => exact ⟨_, holds, path, .head holds hto⟩
  -- whatever reaches the circle lies on it, because holders are unique
  have hbefore : ∀ root a, m.Reaches root a → m.Reaches held a → m.Reaches a id →
      m.Reaches held root ∧ m.Reaches root id := by
    intro root a hroot
    induction hroot with
    | root _ => exact fun hfrom hto => ⟨hfrom, hto⟩
    | step _ holds _ ih =>
      intro hfrom hto
      obtain ⟨b, hholds, hfromB, htoB⟩ := hcircle _ hfrom hto
      obtain rfl := h.holder_unique holds hholds
      exact ih hfromB htoB
  obtain ⟨root, hroot, hreach⟩ := h.rooted id hid.live
  obtain ⟨hfrom, hto⟩ := hbefore root id hreach hback (.root hid.live)
  -- so the root lies on it, too, and is held
  obtain ⟨b, hholds, -⟩ := hcircle root hfrom hto
  exact h.notMem_holdings hroot b hholds

theorem intact (h : m.Accounted roots) (start : Nat) : m.Intact start := by
  intro id l _ hl n hn
  obtain ⟨node, hnode, hnested⟩ := h.legible id l hl n hn
  refine ⟨node, hnode, fun hcode => ?_⟩
  obtain ⟨held, hheld⟩ := hnested hcode
  exact ⟨held, hheld, h.live_of_held (mem_holdings_of_node hl hn hnode hheld)⟩

/-- What is accounted for can be copied. -/
theorem exists_copy (h : m.Accounted roots) {id : Nat} (hlive : m.Live id) :
    ∃ unfolding m', m.unfolding? id = some unfolding ∧
      m.copy id = (some m.allocations.size, m') ∧ Copied m.allocations.size m id m' := by
  obtain ⟨unfolding, hunfold⟩ := exists_unfolding hlive (h.intact id) (h.acyclic id)
  obtain ⟨m', hcopy, copied⟩ := copy_spec hunfold
  exact ⟨unfolding, m', hunfold, hcopy, copied⟩

/-! ## Changes that leave the accounts alone -/

/-- What becomes of buffers, of the counters of successes and of armed failures does not matter. -/
theorem congr (h : m.Accounted roots) (hlive : ∀ id, m'.Live id ↔ m.Live id)
    (hlists : ∀ id l, m'.object? id = some (.list l) ↔ m.object? id = some (.list l))
    (hnodes : m'.nodes = m.nodes)
    (hshares : ∀ id, m.Live id → m'.shares (.ofId id) = m.shares (.ofId id))
    (hclean : m'.counters.doubleFrees = m.counters.doubleFrees) : m'.Accounted roots := by
  have hids : m'.liveIds = m.liveIds := by
    ext id
    rw [mem_liveIds, mem_liveIds, hlive]
  have hholdings : ∀ id, m'.holdings id = m.holdings id := by
    intro id
    -- lists are the same, and nothing else holds anything
    by_cases hlist : ∃ l, m.object? id = some (.list l)
    · obtain ⟨l, hl⟩ := hlist
      rw [holdings_of_object hl, holdings_of_object ((hlists id l).mpr hl), nested, nested, hnodes]
    · rw [holdings_of_not_list fun l hl => hlist ⟨l, hl⟩,
        holdings_of_not_list fun l hl => hlist ⟨l, (hlists id l).mp hl⟩]
  refine
    { legible := fun id l hl n hn => ?_
      ledger := ?_
      rooted := fun id hid => ?_
      unshared := fun id hid => ?_
      clean := hclean.trans h.clean }
  · rw [hnodes]
    exact h.legible id l ((hlists id l).mp hl) n hn
  · rw [held, hids, Finset.sum_congr rfl fun id _ => by rw [hholdings id]]
    exact h.ledger
  · obtain ⟨root, hroot, hreach⟩ := h.rooted id ((hlive id).mp hid)
    refine ⟨root, hroot, hreach.mono (fun id => (hlive id).mpr) fun holder other hholds => ?_⟩
    rwa [hholdings holder]
  · have hold := (hlive id).mp hid
    rw [hshares id hold, h.unshared id hold]

/-! ## New roots -/

/-- A tree of new objects is one root more. -/
theorem graft (h : m.Accounted roots) {made : Nat} (hgrows : m.Grows ∅ m')
    (hreach : ∀ id ∈ m.issuedUntil m', m'.Reaches made id)
    (htree : made ::ₘ ∑ id ∈ m.issuedUntil m', (m'.holdings id : Multiset Nat) =
      (m.issuedUntil m').val)
    (hlegible : ∀ id ∈ m.issuedUntil m', m'.Legible id)
    (hshares : ∀ id ∈ m.issuedUntil m', m'.shares (.ofId id) = 0) :
    m'.Accounted (made ::ₘ roots) := by
  have hids : m'.liveIds = m.liveIds ∪ m.issuedUntil m' :=
    hgrows.liveIds_eq fun id hid => (hreach id hid).live
  have hcases : ∀ id, m'.Live id → m.Live id ∨ id ∈ m.issuedUntil m' := fun id hid => by
    rw [← mem_liveIds, ← Finset.mem_union, ← hids, mem_liveIds]
    exact hid
  have hold : ∀ id, m.Live id → m'.Legible id ∧ m'.holdings id = m.holdings id := fun id hid =>
    (h.legible id).of_nodesIn hgrows.nodes (hgrows.object? hid.lt_size (Set.notMem_empty id))
  have hheld : m'.held = m.held + ∑ id ∈ m.issuedUntil m', (m'.holdings id : Multiset Nat) := by
    rw [held, hids, Finset.sum_union (disjoint_issuedUntil m m'), held,
      Finset.sum_congr rfl fun id hid => by rw [(hold id (mem_liveIds.mp hid)).2]]
  have hval : m'.liveIds.val = m.liveIds.val + (m.issuedUntil m').val := by
    rw [hids, ← Finset.disjUnion_eq_union _ _ (disjoint_issuedUntil m m')]
    rfl
  refine
    { legible := fun id l hl => ?_
      ledger := ?_
      rooted := fun id hid => ?_
      unshared := fun id hid => ?_
      clean := ?_ }
  · rcases hcases id (Live.of_object hl) with hid | hid
    · exact (hold id hid).1 l hl
    · exact hlegible id hid l hl
  · -- both sides are the old roots, what was held, the new root and what the new objects hold
    rw [hheld, hval, ← htree, ← h.ledger, ← Multiset.singleton_add made roots,
      ← Multiset.singleton_add made, add_comm {made} roots]
    exact add_add_add_comm _ _ _ _
  · rcases hcases id hid with hid | hid
    · obtain ⟨root, hroot, hpath⟩ := h.rooted id hid
      refine ⟨root, Multiset.mem_cons_of_mem hroot, hpath.mono (fun id hid => ?_) ?_⟩
      · exact (hgrows.live_iff_of_lt hid.lt_size).mpr hid
      · intro holder other hholds
        rwa [(hold holder (live_of_mem_holdings hholds)).2]
    · exact ⟨made, Multiset.mem_cons_self made roots, hreach id hid⟩
  · rcases hcases id hid with hid | hid
    · rw [shares_ofId, hgrows.places id hid.lt_size (Set.notMem_empty id), ← shares_ofId]
      exact h.unshared id hid
    · exact hshares id hid
  · rw [← h.clean, ← hgrows.elsewhere]

/-- A new object that holds nothing is one root more. -/
theorem issue (h : m.Accounted roots) {object : Object}
    (hleaf : ∀ l, object = .list l → l.nodes = []) :
    (m.issue object).2.Accounted (m.allocations.size ::ₘ roots) := by
  have hobject := object?_issue_self m object
  have hissued : m.issuedUntil (m.issue object).2 = {m.allocations.size} := by
    ext id
    rw [issuedUntil, Finset.mem_Ico, size_issue, Finset.mem_singleton]
    omega
  have hnone : (m.issue object).2.holdings m.allocations.size = [] := by
    rcases list_or_buffer object with ⟨l, rfl⟩ | hbuffer
    · rw [holdings_of_list hobject, hleaf l rfl]
      rfl
    · exact holdings_of_buffer hobject hbuffer
  refine h.graft (.issue m object) ?_ ?_ ?_ ?_
  · rw [hissued]
    intro id hid
    obtain rfl := Finset.mem_singleton.mp hid
    exact .root (Live.of_object hobject)
  · rw [hissued, Finset.sum_singleton, hnone]
    rfl
  · rw [hissued]
    intro id hid l hl n hn
    obtain rfl := Finset.mem_singleton.mp hid
    rw [hleaf l (Option.some.inj (hobject.symm.trans hl))] at hn
    cases hn
  · rw [hissued]
    intro id hid
    obtain rfl := Finset.mem_singleton.mp hid
    rw [shares_ofId, getElem?_issue, if_pos rfl]
    rfl

/-- A copy is one root more. -/
theorem copied (h : m.Accounted roots) {id : Nat} {unfolding : Unfolding}
    (hunfold : m.unfolding? id = some unfolding) (copied : Copied m.allocations.size m id m') :
    m'.Accounted (m.allocations.size ::ₘ roots) := by
  have hmade := copied.unfold.trans hunfold
  have hissued : (m.issuedUntil m').val =
      (occurrencesWithin m.allocations.size m' m.allocations.size : Multiset Nat) := by
    rw [copied.occurrences, issuedUntil, Nat.Ico_eq_range', copied.size, Nat.add_sub_cancel_left]
  have hmem : ∀ j, j ∈ m.issuedUntil m' ↔
      j ∈ occurrencesWithin m.allocations.size m' m.allocations.size := fun j => by
    rw [← Finset.mem_val, hissued, Multiset.mem_coe]
  -- the new objects are the occurrences of the copy, and those are a tree
  refine h.graft copied.grows ?_ ?_ ?_ ?_
  · intro j hj
    exact (mem_occurrencesWithin_iff hmade).mp ((hmem j).mp hj)
  · have hsum : ∑ j ∈ m.issuedUntil m', (m'.holdings j : Multiset Nat) =
        ((occurrencesWithin m.allocations.size m' m.allocations.size).flatMap m'.holdings :
          Multiset Nat) := by
      rw [Finset.sum, hissued]
      exact Multiset.coe_bind _ _
    rw [hsum, hissued]
    exact cons_holdings_occurrencesWithin hmade
  · intro j hj
    obtain ⟨below, unfolding, hbelow⟩ := exists_unfoldWithin_of_mem hmade ((hmem j).mp hj)
    exact legible_of_unfoldWithin hbelow
  · exact fun j hj => (copied.of_issued hj).2

/-! ## Released roots -/

/-- A root and what the objects hold that it reaches are the objects that it reaches. -/
private theorem cons_holdings_reach {root : Nat} (h : m.Accounted (root ::ₘ roots))
    {gone : Finset Nat} (hsubset : gone ⊆ m.liveIds)
    (hgone : ∀ id, id ∈ gone ↔ m.Reaches root id) :
    root ::ₘ ∑ id ∈ gone, (m.holdings id : Multiset Nat) = gone.val := by
  have hle : root ::ₘ ∑ id ∈ gone, (m.holdings id : Multiset Nat) ≤ (root ::ₘ roots) + m.held := by
    have hroot : {root} ≤ root ::ₘ roots :=
      Multiset.singleton_le.mpr (Multiset.mem_cons_self root roots)
    rw [← Multiset.singleton_add]
    exact add_le_add hroot (Finset.sum_le_sum_of_subset hsubset)
  -- every number occurs once on both sides, so it is enough to compare the members
  refine (Multiset.Nodup.ext (Multiset.nodup_of_le hle h.nodup) gone.nodup).mpr fun id => ?_
  rw [Multiset.mem_cons, Multiset.mem_sum, Finset.mem_val, hgone]
  constructor
  · rintro (rfl | ⟨holder, hholder, hholds⟩)
    · exact .root (h.live_of_root (Multiset.mem_cons_self id roots))
    · exact .step ((hgone holder).mp hholder) hholds (h.live_of_held hholds)
  · intro hreach
    cases hreach with
    | root _ => exact .inl rfl
    | step path holds _ => exact .inr ⟨_, (hgone _).mpr path, holds⟩

/-- A root that is released, with all that it reaches, is a root no longer. -/
theorem cut {root : Nat} (h : m.Accounted (root ::ₘ roots)) (kills : m.Kills (m.reach root) m')
    (hshares : ∀ id, ¬ m.Reaches root id → m'.shares (.ofId id) = m.shares (.ofId id))
    (hclean : m'.counters.doubleFrees = m.counters.doubleFrees) : m'.Accounted roots := by
  have hlive : ∀ id, m'.Live id ↔ m.Live id ∧ ¬ m.Reaches root id := kills.live_iff
  have hkept : ∀ id, m'.Live id → m'.object? id = m.object? id := fun id hid =>
    kills.kept id ((hlive id).mp hid).2
  have hsubset : m'.liveIds ⊆ m.liveIds := fun id hid =>
    mem_liveIds.mpr ((hlive id).mp (mem_liveIds.mp hid)).1
  have hdied : ∀ id, id ∈ m.liveIds \ m'.liveIds ↔ m.Reaches root id := fun id => by
    rw [Finset.mem_sdiff, mem_liveIds, mem_liveIds, hlive]
    constructor
    · exact fun hid => not_not.mp fun hnot => hid.2 ⟨hid.1, hnot⟩
    · exact fun hreach => ⟨hreach.live, fun hid => hid.2 hreach⟩
  have hgone := h.cons_holdings_reach Finset.sdiff_subset hdied
  have hheld : m.held =
      m'.held + ∑ id ∈ m.liveIds \ m'.liveIds, (m.holdings id : Multiset Nat) := by
    rw [held, held, ← Finset.sum_sdiff hsubset, add_comm]
    refine congrArg (· + _) (Finset.sum_congr rfl fun id hid => ?_)
    rw [holdings_congr (hkept id (mem_liveIds.mp hid)) kills.nodes_eq]
  have hval : m.liveIds.val = m'.liveIds.val + (m.liveIds \ m'.liveIds).val := by
    conv_lhs => rw [← Finset.union_sdiff_of_subset hsubset,
      ← Finset.disjUnion_eq_union _ _ Finset.disjoint_sdiff]
    rfl
  refine
    { legible := fun id l hl n hn => ?_
      ledger := ?_
      rooted := fun id hid => ?_
      unshared := fun id hid => ?_
      clean := hclean.trans h.clean }
  · rw [kills.nodes_eq]
    exact h.legible id l (by rw [← hkept id (Live.of_object hl), hl]) n hn
  · -- the released part of the ledger balances by itself and is taken off on both sides
    have hledger := h.ledger
    rw [hheld, hval, ← hgone, ← Multiset.singleton_add, ← Multiset.singleton_add,
      add_comm {root} roots, add_add_add_comm] at hledger
    exact add_right_cancel hledger
  · obtain ⟨hold, hnot⟩ := (hlive id).mp hid
    obtain ⟨other, hother, hpath⟩ := h.rooted id hold
    rcases Multiset.mem_cons.mp hother with rfl | hother
    · exact absurd hpath hnot
    · exact ⟨other, hother, (kills.reaches_iff (closed_reach m root)).mpr ⟨hpath, hnot⟩⟩
  · obtain ⟨hold, hnot⟩ := (hlive id).mp hid
    rw [hshares id hnot, h.unshared id hold]

/-! ## Roots that are appended -/

section PushNode

variable {node : Node} {l : ListObject}

private theorem object?_pushNode_list (hl : m.object? node.list = some (.list l)) :
    (m.pushNode node).object? node.list = some (.list ⟨l.nodes ++ [m.nodes.size]⟩) := by
  rw [object?_pushNode, if_pos rfl, hl]
  rfl

/-- What the list held, and what the node holds. -/
private theorem holdings_pushNode_list (hlegible : m.Legible node.list)
    (hl : m.object? node.list = some (.list l)) :
    (m.pushNode node).holdings node.list = m.holdings node.list ++ (nestedIn node).toList := by
  have hlast : (m.pushNode node).nodes[m.nodes.size]? = some node := by simp
  have hbefore : ∀ n ∈ l.nodes, (m.pushNode node).heldAt? n = m.heldAt? n := by
    intro n hn
    obtain ⟨old, hold, -⟩ := hlegible l hl n hn
    rw [heldAt?_of_node hold, heldAt?_of_node ((Grows.pushNode m node).nodes n old hold)]
  rw [holdings_of_list (object?_pushNode_list hl), holdings_of_list hl, List.filterMap_append,
    List.filterMap_congr hbefore, List.filterMap_cons, heldAt?_of_node hlast]
  cases nestedIn node <;> rfl

private theorem held_pushNode (hlegible : ∀ id, m.Legible id)
    (hl : m.object? node.list = some (.list l)) :
    (m.pushNode node).held = m.held + ((nestedIn node).toList : Multiset Nat) := by
  have hsplit : ∀ id ∈ m.liveIds, ((m.pushNode node).holdings id : Multiset Nat) =
      m.holdings id + if id = node.list then ((nestedIn node).toList : Multiset Nat) else 0 := by
    intro id _
    by_cases hid : id = node.list
    · rw [hid, if_pos rfl, holdings_pushNode_list (hlegible _) hl, Multiset.coe_add]
    · rw [if_neg hid, add_zero, ((hlegible id).pushNode hid).2]
  rw [held, liveIds_pushNode, Finset.sum_congr rfl hsplit, Finset.sum_add_distrib,
    Finset.sum_ite_eq', if_pos (mem_liveIds.mpr (Live.of_object hl)), held]

/-- A node that is appended to a root takes what it holds from the roots. -/
theorem pushNode (h : m.Accounted (((nestedIn node).toList : Multiset Nat) + roots))
    (hl : m.object? node.list = some (.list l))
    (hnested : nestedCategory? node.code ≠ none → ∃ held, nestedIn node = some held)
    (hroot : ∀ held, nestedIn node = some held → node.list ∈ roots) :
    (m.pushNode node).Accounted roots := by
  have hlist := holdings_pushNode_list (h.legible node.list) hl
  have hgrow : ∀ {a b}, m.Reaches a b → (m.pushNode node).Reaches a b := by
    intro a b path
    refine path.mono (fun id => (live_pushNode m node id).mpr) fun holder other hholds => ?_
    by_cases hholder : holder = node.list
    · rw [hholder, hlist]
      exact List.mem_append_left _ (hholder ▸ hholds)
    · rwa [((h.legible holder).pushNode hholder).2]
  refine
    { legible := fun id => ?_
      ledger := ?_
      rooted := fun id hid => ?_
      unshared := fun id hid => ?_
      clean := h.clean }
  · -- the old nodes of the list can be read as before, and the new one by assumption
    by_cases hid : id = node.list
    · intro l' hl' n hn
      obtain rfl : ⟨l.nodes ++ [m.nodes.size]⟩ = l' := by
        simpa [hid, object?_pushNode_list hl] using hl'
      rcases List.mem_append.mp hn with hn | hn
      · obtain ⟨old, hold, hheldOld⟩ := h.legible node.list l hl n hn
        exact ⟨old, (Grows.pushNode m node).nodes n old hold, hheldOld⟩
      · rw [List.mem_singleton.mp hn]
        exact ⟨node, by simp, hnested⟩
    · exact ((h.legible id).pushNode hid).1
  · rw [held_pushNode h.legible hl, liveIds_pushNode, ← h.ledger, add_comm m.held, ← add_assoc,
      add_comm roots]
  · obtain ⟨root, hmem, hpath⟩ := h.rooted id ((live_pushNode m node id).mp hid)
    rcases Multiset.mem_add.mp hmem with hheldRoot | hkept
    · -- what the node holds is a root no longer, and is now reached from the list
      have hnamed : nestedIn node = some root := by simpa using hheldRoot
      refine ⟨node.list, hroot root hnamed, .head ?_ (hgrow hpath)⟩
      rw [hlist, hnamed]
      simp
    · exact ⟨root, hkept, hgrow hpath⟩
  · refine Eq.trans ?_ (h.unshared id ((live_pushNode m node id).mp hid))
    rw [shares_ofId, shares_ofId, getElem?_pushNode]
    split
    · cases m.allocations[id]? <;> rfl
    · rfl

end PushNode

end Accounted

end Memory

end Custody
