import Custody.Proofs.Memory.Unfolding
import Custody.Proofs.Memory.Release
import Custody.Proofs.Session
import Custody.Container.Basic
import Custody.Host.Reference

/-!
# Deep copies

A list is issued empty before its nodes are copied, so while a copy is under way the memory holds a
list that is not finished, and everything that is copied into it lies behind it in the table of
objects.  `Memory.Built` says what the nodes copied so far have become; it composes, and the copy of
a whole list is the composition over its nodes.

- `Memory.copy_spec`: where an object has an unfolding, its copy succeeds, has the same unfolding,
  and consists of fresh objects that are numbered in the order of the unfolding.
- `Container.tryClone_of_list_is_deep`: a library that copies a list gets a deep copy.
-/

namespace Custody

namespace Memory

/-! ## Growing -/

/-- A memory that has all that another has, except that the objects of a set may have changed. -/
structure Grows (m : Memory) (building : Set Nat) (m' : Memory) : Prop where
  places : ∀ id < m.allocations.size, id ∉ building → m'.allocations[id]? = m.allocations[id]?
  issued : m.allocations.size ≤ m'.allocations.size
  nodes : m.NodesIn m'
  elsewhere : { m' with allocations := m.allocations, nodes := m.nodes } = m

/-- The numbers that were issued between two memories. -/
def issuedUntil (m m' : Memory) : Finset Nat := Finset.Ico m.allocations.size m'.allocations.size

theorem disjoint_issuedUntil (m m' : Memory) : Disjoint m.liveIds (m.issuedUntil m') := by
  rw [Finset.disjoint_left]
  intro j hlive hnew
  have hbefore := (mem_liveIds.mp hlive).lt_size
  have hafter := (Finset.mem_Ico.mp hnew).1
  omega

namespace Grows

variable {m m' m'' : Memory} {building : Set Nat}

theorem object? (h : m.Grows building m') {id : Nat} (hid : id < m.allocations.size)
    (hold : id ∉ building) : m'.object? id = m.object? id := by
  rw [Memory.object?, Memory.object?, h.places id hid hold]

theorem refl (m : Memory) (building : Set Nat) : m.Grows building m where
  places _ _ _ := rfl
  issued := le_rfl
  nodes _ _ hnode := hnode
  elsewhere := rfl

theorem trans (h : m.Grows building m') (h' : m'.Grows building m'') : m.Grows building m'' where
  places id hid hold := by
    rw [h'.places id (hid.trans_le h.issued) hold, h.places id hid hold]
  issued := h.issued.trans h'.issued
  nodes n node hnode := h'.nodes n node (h.nodes n node hnode)
  elsewhere := by rw [← h.elsewhere, ← h'.elsewhere]

theorem weaken (h : m.Grows ∅ m') : m.Grows building m' where
  places id hid _ := h.places id hid (Set.notMem_empty id)
  issued := h.issued
  nodes := h.nodes
  elsewhere := h.elsewhere

/-- What was changed afterwards may have been issued only then. -/
theorem of_new (h : m.Grows ∅ m') (h' : m'.Grows building m'')
    (hnew : ∀ id ∈ building, m.allocations.size ≤ id) : m.Grows ∅ m'' where
  places id hid _ := by
    have hold : id ∉ building := fun hmem => absurd (hnew id hmem) (by omega)
    rw [h'.places id (hid.trans_le h.issued) hold, h.places id hid (Set.notMem_empty id)]
  issued := h.issued.trans h'.issued
  nodes n node hnode := h'.nodes n node (h.nodes n node hnode)
  elsewhere := by rw [← h.elsewhere, ← h'.elsewhere]

theorem issue (m : Memory) (object : Object) : m.Grows ∅ (m.issue object).2 where
  places id hid _ := by rw [getElem?_issue, if_neg (by omega)]
  issued := by simp
  nodes _ _ hnode := hnode
  elsewhere := rfl

theorem pushNode (m : Memory) (node : Node) : m.Grows {node.list} (m.pushNode node) where
  places id _ hold := by
    rw [getElem?_pushNode, if_neg]
    exact fun h => hold h.symm
  issued := by simp
  nodes n other hnode := by
    have hn : n < m.nodes.size := (Array.getElem?_eq_some_iff.mp hnode).1
    rw [nodes_pushNode, Array.getElem?_push, if_neg (by omega), hnode]
  elsewhere := rfl

theorem live_iff_of_lt (h : m.Grows ∅ m') {id : Nat} (hid : id < m.allocations.size) :
    m'.Live id ↔ m.Live id := by
  rw [Live, Live, h.object? hid (Set.notMem_empty id)]

/-- If everything that was issued is live, it joins what was live before. -/
theorem liveIds_eq (h : m.Grows ∅ m') (hnew : ∀ id ∈ m.issuedUntil m', m'.Live id) :
    m'.liveIds = m.liveIds ∪ m.issuedUntil m' := by
  ext id
  rw [Finset.mem_union, mem_liveIds, mem_liveIds]
  by_cases hid : id < m.allocations.size
  · rw [h.live_iff_of_lt hid, issuedUntil, Finset.mem_Ico]
    exact ⟨.inl, fun hor => hor.resolve_right (by omega)⟩
  · constructor
    · exact fun hlive => .inr (Finset.mem_Ico.mpr ⟨by omega, hlive.lt_size⟩)
    · rintro (hlive | hissued)
      · exact absurd hlive.lt_size hid
      · exact hnew id hissued

/-- What can be unfolded stays as it is while other objects change. -/
theorem unfoldWithin (h : m.Grows building m') {depth depth' : Nat} (hdepth : depth ≤ depth')
    {id : Nat} {unfolding : Unfolding} (hunfold : unfoldWithin depth m id = some unfolding)
    (hold : ∀ j ∈ occurrencesWithin depth m id, j ∉ building) :
    Memory.unfoldWithin depth' m' id = some unfolding ∧
      occurrencesWithin depth' m' id = occurrencesWithin depth m id :=
  unfoldWithin_frame h.nodes hdepth id unfolding hunfold fun j hj =>
    h.object? (reaches_of_mem_occurrencesWithin hj).live.lt_size (hold j hj)

end Grows

/-! ## Copying objects -/

/-- The copy of an object is made: it has the unfolding of the object, and occupies the numbers from
the first free one on, in the order of the unfolding. -/
structure Copied (depth : Nat) (m : Memory) (id : Nat) (m' : Memory) : Prop where
  grows : m.Grows ∅ m'
  unfold : unfoldWithin depth m' m.allocations.size = unfoldWithin depth m id
  occurrences : occurrencesWithin depth m' m.allocations.size =
    List.range' m.allocations.size (occurrencesWithin depth m id).length
  size : m'.allocations.size = m.allocations.size + (occurrencesWithin depth m id).length
  fresh : ∀ j, m.allocations.size ≤ j → j < m'.allocations.size →
    ∃ object, m'.allocations[j]? = some ⟨some object, 0⟩

/-- An action that copies every object that has an unfolding. -/
def Copies (depth : Nat) (copy : Nat → Memory → Option Nat × Memory) : Prop :=
  ∀ m id unfolding, unfoldWithin depth m id = some unfolding →
    ∃ m', copy id m = (some m.allocations.size, m') ∧ Copied depth m id m'

/-! ## Copying nodes -/

/-- Nodes were copied to the end of a list that is being built.  `ids` is the number of objects that
were issued on the way. -/
structure Built (depth : Nat) (target : Nat) (m : Memory) (before : List Nat)
    (entries : List (Entry Unfolding)) (ids : Nat) (m' : Memory) (added : List Nat) : Prop where
  grows : m.Grows {target} m'
  target : m'.allocations[target]? = some ⟨some (.list ⟨before ++ added⟩), 0⟩
  entries : added.mapM (entryAt? depth m') = some entries
  occurrences : (added.filterMap m'.heldAt?).flatMap (occurrencesWithin depth m') =
    List.range' m.allocations.size ids
  size : m'.allocations.size = m.allocations.size + ids
  fresh : ∀ j, m.allocations.size ≤ j → j < m'.allocations.size →
    ∃ object, m'.allocations[j]? = some ⟨some object, 0⟩

namespace Built

variable {depth target : Nat} {m m' m'' : Memory} {before : List Nat}

theorem nil (htarget : m.allocations[target]? = some ⟨some (.list ⟨before⟩), 0⟩) :
    Built depth target m before [] 0 m [] where
  grows := .refl m _
  target := by rw [List.append_nil, htarget]
  entries := rfl
  occurrences := rfl
  size := rfl
  fresh j hlow hhigh := by omega

/-- What was built first is not disturbed by what is built after it: the list itself changes, but it
does not occur in what it holds. -/
theorem append {entries entries' : List (Entry Unfolding)} {ids ids' : Nat}
    {added added' : List Nat} (hissued : target < m.allocations.size)
    (first : Built depth target m before entries ids m' added)
    (second : Built depth target m' (before ++ added) entries' ids' m'' added') :
    Built depth target m before (entries ++ entries') (ids + ids') m'' (added ++ added') := by
  -- everything in the entries built first was issued after the list and before `m'`
  have hobjects : ∀ j ∈ (added.filterMap m'.heldAt?).flatMap (occurrencesWithin depth m'),
      m''.object? j = m'.object? j := by
    intro j hj
    rw [first.occurrences, List.mem_range'_1] at hj
    exact second.grows.object? (by rw [first.size]; omega) (by simp; omega)
  obtain ⟨hentries, hoccurrences⟩ := entries_frame second.grows.nodes
    (unfoldWithin_frame second.grows.nodes le_rfl) first.entries hobjects
  refine ⟨first.grows.trans second.grows, ?_, ?_, ?_, ?_, ?_⟩
  · rw [← List.append_assoc, second.target]
  · simp [List.mapM_append, hentries, second.entries]
  · rw [List.filterMap_append, List.flatMap_append, hoccurrences, first.occurrences,
      second.occurrences, first.size, List.range'_append_1]
  · rw [second.size, first.size, Nat.add_assoc]
  · intro j hlow hhigh
    -- issued for the first entries, or for the others
    by_cases hj : j < m'.allocations.size
    · obtain ⟨object, hobject⟩ := first.fresh j hlow hj
      exact ⟨object, by rw [second.grows.places j hj (by simp; omega), hobject]⟩
    · exact second.fresh j (by omega) hhigh

end Built

/-- A node that holds nothing is only appended. -/
private theorem built_plain {depth target : Nat} {m : Memory} {before : List Nat} {node : Node}
    (htarget : m.allocations[target]? = some ⟨some (.list ⟨before⟩), 0⟩)
    (hplain : nestedCategory? node.code = none) :
    Built depth target m before [⟨node.name, node.code, .inl node.value⟩] 0
      (m.pushNode { node with list := target }) [m.nodes.size] where
  grows := .pushNode m { node with list := target }
  target := by simp [getElem?_pushNode, htarget, appended]
  entries := by simp [entryAt?, entryOf?, hplain]
  occurrences := by simp [heldAt?, nestedIn, hplain]
  size := by simp
  fresh j hlow hhigh := by
    rw [size_pushNode] at hhigh
    omega

/-- A node that holds an object is appended once the object is copied, and holds the copy. -/
private theorem built_held {depth target : Nat} {m m' : Memory} {before : List Nat} {node : Node}
    {held : Nat} {unfolding : Unfolding}
    (htarget : m.allocations[target]? = some ⟨some (.list ⟨before⟩), 0⟩)
    (hheld : nestedIn node = some held)
    (hunfold : unfoldWithin depth m held = some unfolding) (copied : Copied depth m held m') :
    Built depth target m before [⟨node.name, node.code, .inr unfolding⟩]
      (occurrencesWithin depth m held).length
      (m'.pushNode { node with list := target, value := .handle (.ofId m.allocations.size) })
      [m'.nodes.size] := by
  have hissued : target < m.allocations.size := (Array.getElem?_eq_some_iff.mp htarget).1
  let copiedNode : Node :=
    { node with list := target, value := .handle (.ofId m.allocations.size) }
  have hpush : m'.Grows {target} (m'.pushNode copiedNode) := .pushNode m' copiedNode
  have hnested : nestedIn copiedNode = some m.allocations.size := by
    obtain ⟨category, hcategory, -⟩ := Option.bind_eq_some_iff.mp hheld
    simp [nestedIn, copiedNode, hcategory, Payload.asHandle]
  have hat : (m'.pushNode copiedNode).nodes[m'.nodes.size]? = some copiedNode := by simp
  -- the copy was made after the list, so the list that changes does not occur in it
  obtain ⟨hunfold', hoccurrences⟩ := hpush.unfoldWithin le_rfl (copied.unfold.trans hunfold)
    (by
      intro j hj
      rw [copied.occurrences, List.mem_range'_1] at hj
      simp only [Set.mem_singleton_iff]
      omega)
  refine ⟨copied.grows.weaken.trans hpush, ?_, ?_, ?_, ?_, ?_⟩
  · have hplace := copied.grows.places target hissued (Set.notMem_empty _)
    simp [getElem?_pushNode, hplace, htarget, appended]
  · have hentry : entryAt? depth (m'.pushNode copiedNode) m'.nodes.size =
        some ⟨node.name, node.code, .inr unfolding⟩ := by
      rw [entryAt?, hat]
      exact entryOf?_eq_some_iff.mpr (.inr ⟨_, unfolding, hnested, hunfold', rfl⟩)
    exact mapM_cons_eq_some_iff.mpr ⟨_, [], hentry, rfl, rfl⟩
  · have hheldAt : (m'.pushNode copiedNode).heldAt? m'.nodes.size = some m.allocations.size :=
      (heldAt?_of_node hat).trans hnested
    rw [List.filterMap_cons_some hheldAt, List.filterMap_nil, List.flatMap_singleton, hoccurrences,
      copied.occurrences]
  · rw [size_pushNode, copied.size]
  · intro j hlow hhigh
    rw [size_pushNode] at hhigh
    obtain ⟨object, hobject⟩ := copied.fresh j hlow hhigh
    exact ⟨object, by rw [hpush.places j hhigh (by simp; omega), hobject]⟩

/-- Copying one node: the number of the node that it became is all that the list gains. -/
private theorem copyNode_spec {depth : Nat} {copy : Nat → Memory → Option Nat × Memory}
    (hcopy : Copies depth copy) {target : Nat} {m : Memory} {before : List Nat} {node : Node}
    {entry : Entry Unfolding}
    (htarget : m.allocations[target]? = some ⟨some (.list ⟨before⟩), 0⟩)
    (hentry : entryOf? (unfoldWithin depth m) node = some entry) :
    ∃ m' n, copyNode copy target node m = (true, m') ∧
      Built depth target m before [entry]
        ((nestedIn node).toList.flatMap (occurrencesWithin depth m)).length m' [n] := by
  rcases entryOf?_eq_some_iff.mp hentry with ⟨hplain, rfl⟩ | ⟨held, unfolding, hheld, hunfold, rfl⟩
  · refine ⟨m.pushNode { node with list := target }, m.nodes.size, by simp [copyNode, hplain], ?_⟩
    simpa [nestedIn, hplain] using built_plain htarget hplain
  · obtain ⟨m', hcopied, copied⟩ := hcopy m held unfolding hunfold
    obtain ⟨category, hcategory, hid⟩ := Option.bind_eq_some_iff.mp hheld
    refine ⟨m'.pushNode
      { node with list := target, value := .handle (.ofId m.allocations.size) }, m'.nodes.size,
      by simp only [copyNode, hcategory, hid, hcopied], ?_⟩
    simpa [hheld] using built_held htarget hheld hunfold copied

/-- Copying nodes whose entries are read in `source`, of which `m` still has everything. -/
private theorem copyNodes_spec {depth : Nat} {copy : Nat → Memory → Option Nat × Memory}
    (hcopy : Copies depth copy) {source : Memory} {ns : List Nat}
    {entries : List (Entry Unfolding)}
    (hentries : ns.mapM (entryAt? depth source) = some entries) {target : Nat} {m : Memory}
    {before : List Nat} (hgrows : source.Grows ∅ m) (htarget : source.allocations.size ≤ target)
    (hplace : m.allocations[target]? = some ⟨some (.list ⟨before⟩), 0⟩) :
    ∃ m' added, copyNodes copy target ns m = (true, m') ∧
      Built depth target m before entries
        ((ns.filterMap source.heldAt?).flatMap (occurrencesWithin depth source)).length
        m' added := by
  induction ns generalizing m before entries with
  | nil =>
    obtain rfl : entries = [] := by simpa using hentries.symm
    exact ⟨m, [], rfl, .nil hplace⟩
  | cons n ns ih =>
    obtain ⟨entry, rest, hentry, hrest, rfl⟩ := mapM_cons_eq_some_iff.mp hentries
    obtain ⟨node, hnode, hread⟩ := Option.bind_eq_some_iff.mp hentry
    -- what the node holds is still there, and unfolds as it did in the source
    have hsame : ∀ held unfolding, unfoldWithin depth source held = some unfolding →
        unfoldWithin depth m held = some unfolding ∧
          occurrencesWithin depth m held = occurrencesWithin depth source held :=
      fun held unfolding h => hgrows.unfoldWithin le_rfl h fun _ _ => Set.notMem_empty _
    have hread' : entryOf? (unfoldWithin depth m) node = some entry := by
      rcases entryOf?_eq_some_iff.mp hread with hplain | ⟨held, unfolding, hheld, hunfold, rfl⟩
      · exact entryOf?_eq_some_iff.mpr (.inl hplain)
      · exact entryOf?_eq_some_iff.mpr
          (.inr ⟨held, unfolding, hheld, (hsame held unfolding hunfold).1, rfl⟩)
    have hcount : (nestedIn node).toList.flatMap (occurrencesWithin depth m) =
        (nestedIn node).toList.flatMap (occurrencesWithin depth source) := by
      apply List.flatMap_congr
      intro held hheld
      have hheldAt : source.heldAt? n = some held := by
        rw [heldAt?_of_node hnode]
        simpa using hheld
      obtain ⟨unfolding, hunfold⟩ := (of_entryAt?_eq_some hentry).2 held hheldAt
      exact (hsame held unfolding hunfold).2
    have hissued : target < m.allocations.size := (Array.getElem?_eq_some_iff.mp hplace).1
    obtain ⟨m', n', hfirst, first⟩ := copyNode_spec hcopy hplace hread'
    -- the other nodes are read in the source still: the list that has changed is not part of it
    have hgrows' : source.Grows ∅ m' := hgrows.of_new first.grows (by simpa using htarget)
    obtain ⟨m'', added, hsecond, second⟩ := ih hrest hgrows' first.target
    refine ⟨m'', n' :: added, ?_, ?_⟩
    · simp [copyNodes, hgrows.nodes n node hnode, hfirst, hsecond]
    · have hboth := first.append hissued second
      rw [hcount, ← List.length_append, ← List.flatMap_append] at hboth
      have hheld : (nestedIn node).toList ++ ns.filterMap source.heldAt? =
          (n :: ns).filterMap source.heldAt? := by
        rw [List.filterMap_cons, heldAt?_of_node hnode]
        cases nestedIn node <;> rfl
      rwa [hheld] at hboth

/-! ## Copying an object -/

/-- A list is copied node by node into a new list. -/
private theorem copied_list {depth : Nat} {m m' : Memory} {id : Nat} {l : ListObject}
    {entries : List (Entry Unfolding)} {added : List Nat} (hl : m.object? id = some (.list l))
    (hentries : l.nodes.mapM (entryAt? depth m) = some entries)
    (built : Built depth m.allocations.size (m.issue (.list ⟨[]⟩)).2 [] entries
      ((l.nodes.filterMap m.heldAt?).flatMap (occurrencesWithin depth m)).length m' added) :
    Copied (depth + 1) m id m' := by
  have hmade : m'.object? m.allocations.size = some (.list ⟨added⟩) :=
    object?_eq_some_iff.mpr ⟨0, built.target⟩
  have hcount : (occurrencesWithin (depth + 1) m id).length =
      ((l.nodes.filterMap m.heldAt?).flatMap (occurrencesWithin depth m)).length + 1 := by
    rw [occurrencesWithin_succ (Live.of_object hl), holdings_of_list hl, List.length_cons]
  refine ⟨(Grows.issue m _).of_new built.grows (by simp), ?_, ?_, ?_, ?_⟩
  · rw [unfoldWithin_succ_eq_some_iff.mpr (.inl ⟨l, entries, hl, hentries, rfl⟩)]
    exact unfoldWithin_succ_eq_some_iff.mpr (.inl ⟨⟨added⟩, entries, hmade, built.entries, rfl⟩)
  -- the list comes first among the numbers, and what its nodes hold follows
  · rw [occurrencesWithin_succ (Live.of_object hmade), holdings_of_list hmade, built.occurrences,
      hcount, List.range'_succ, size_issue]
  · rw [built.size, hcount, size_issue]
    omega
  · intro j hlow hhigh
    by_cases hj : j = m.allocations.size
    · exact ⟨_, hj ▸ built.target⟩
    · exact built.fresh j (by rw [size_issue]; omega) hhigh

/-- A buffer is issued once more. -/
private theorem copied_buffer {depth : Nat} {m : Memory} {id : Nat} {object : Object}
    (hobject : m.object? id = some object) (hbuffer : ∀ l, object ≠ .list l) :
    Copied (depth + 1) m id (m.issue object).2 := by
  have hmade : (m.issue object).2.object? m.allocations.size = some object := by
    simp [object?_issue]
  have hcount : (occurrencesWithin (depth + 1) m id).length = 1 := by
    simp [occurrencesWithin_succ (Live.of_object hobject), holdings_of_buffer hobject hbuffer]
  refine ⟨.issue m object, ?_, ?_, ?_, ?_⟩
  · rw [unfoldWithin_succ_eq_some_iff.mpr (.inr ⟨object, hobject, hbuffer, rfl⟩)]
    exact unfoldWithin_succ_eq_some_iff.mpr (.inr ⟨object, hmade, hbuffer, rfl⟩)
  · rw [hcount, occurrencesWithin_succ (Live.of_object hmade), holdings_of_buffer hmade hbuffer]
    rfl
  · rw [size_issue, hcount]
  · intro j hlow hhigh
    obtain rfl : j = m.allocations.size := by
      rw [size_issue] at hhigh
      omega
    exact ⟨object, by rw [getElem?_issue, if_pos rfl]⟩

/-- Within the levels of its unfolding, an object is copied. -/
theorem copies_copyWithin (depth : Nat) : Copies depth (copyWithin depth) := by
  induction depth with
  | zero =>
    intro m id unfolding hunfold
    cases hunfold
  | succ depth ih =>
    intro m id unfolding hunfold
    -- a list by the induction hypothesis for what it holds, anything else at once
    rcases unfoldWithin_succ_eq_some_iff.mp hunfold with
      ⟨l, entries, hl, hentries, rfl⟩ | ⟨object, hobject, hbuffer, rfl⟩
    · have hplace : (m.issue (.list ⟨[]⟩)).2.allocations[m.allocations.size]? =
          some ⟨some (.list ⟨[]⟩), 0⟩ := by rw [getElem?_issue, if_pos rfl]
      obtain ⟨m', added, hcopied, built⟩ :=
        copyNodes_spec ih hentries (.issue m _) le_rfl hplace
      refine ⟨m', ?_, copied_list hl hentries built⟩
      rw [copyWithin, hl]
      simp only [issue_fst, hcopied]
    · refine ⟨(m.issue object).2, ?_, copied_buffer hobject hbuffer⟩
      rw [copyWithin, hobject]
      cases object with
      | list l => exact absurd rfl (hbuffer l)
      | array a => rfl
      | image i => rfl

/-- Where an object has an unfolding, its copy succeeds. -/
theorem copy_spec {m : Memory} {id : Nat} {unfolding : Unfolding}
    (h : m.unfolding? id = some unfolding) :
    ∃ m', m.copy id = (some m.allocations.size, m') ∧ Copied m.allocations.size m id m' :=
  copies_copyWithin m.allocations.size m id unfolding h

/-! ## What a copy is -/

/-- `made` is a deep copy of an object: it unfolds as the object does, it consists of new objects
each of which occurs in it once, and all that was there before is as it was. -/
structure DeepCopy (m : Memory) (id made : Nat) (m' : Memory) : Prop where
  unfold : ∃ unfolding, m.unfolding? id = some unfolding ∧ m'.unfolding? made = some unfolding
  reached : ∀ j, m'.Reaches made j ↔ j ∈ m'.occurrences made
  once : (m'.occurrences made).Nodup
  /-- An object that occurs twice is copied twice. -/
  repeated : (m'.occurrences made).length = (m.occurrences id).length
  fresh : ∀ j ∈ m'.occurrences made,
    m.allocations.size ≤ j ∧ m'.Live j ∧ m'.shares (.ofId j) = 0
  places : ∀ j < m.allocations.size, m'.allocations[j]? = m.allocations[j]?
  nodes : m.NodesIn m'
  counters : m'.counters = { m.counters with clones := m.counters.clones + 1 }
  live : m'.liveCount = m.liveCount + (m.occurrences id).length
  elsewhere : { m' with
    allocations := m.allocations, nodes := m.nodes, counters := m.counters } = m

/-- What was issued for a copy is live and not shared. -/
theorem Copied.of_issued {depth : Nat} {m m' : Memory} {id : Nat} (copied : Copied depth m id m')
    {j : Nat} (hj : j ∈ m.issuedUntil m') : m'.Live j ∧ m'.shares (.ofId j) = 0 := by
  obtain ⟨hlow, hhigh⟩ := Finset.mem_Ico.mp hj
  obtain ⟨object, hobject⟩ := copied.fresh j hlow hhigh
  refine ⟨Live.of_object (object?_eq_some_iff.mpr ⟨0, hobject⟩), ?_⟩
  rw [shares_ofId, hobject]
  rfl

private theorem Copied.liveCount_eq {depth : Nat} {m m' : Memory} {id : Nat}
    (copied : Copied depth m id m') :
    m'.liveCount = m.liveCount + (occurrencesWithin depth m id).length := by
  have hlive : ∀ j ∈ m.issuedUntil m', m'.Live j := fun j hj => (copied.of_issued hj).1
  rw [← card_liveIds, ← card_liveIds, copied.grows.liveIds_eq hlive,
    Finset.card_union_of_disjoint (disjoint_issuedUntil m m'), issuedUntil, Nat.card_Ico,
    copied.size]
  omega

/-- Counting the copy of an object that has an unfolding makes a deep copy of it. -/
theorem Copied.deepCopy {m m' : Memory} {id : Nat} {unfolding : Unfolding}
    (hunfold : m.unfolding? id = some unfolding) (copied : Copied m.allocations.size m id m') :
    m.DeepCopy id m.allocations.size
      (m'.count fun c => { c with clones := c.clones + 1 }) := by
  -- reading on beyond the levels of the source, and in the memory with the other count, is the same
  have hnodes : m'.NodesIn (m'.count fun c => { c with clones := c.clones + 1 }) :=
    fun _ _ hnode => hnode
  obtain ⟨hunfold', hoccurrences⟩ := unfoldWithin_frame hnodes copied.grows.issued
    m.allocations.size unfolding (copied.unfold.trans hunfold) fun _ _ => rfl
  have hnumbers : (m'.count fun c => { c with clones := c.clones + 1 }).occurrences
      m.allocations.size = List.range' m.allocations.size (m.occurrences id).length :=
    hoccurrences.trans copied.occurrences
  have hcounters : m'.counters = m.counters := by rw [← copied.grows.elsewhere]
  refine
    { unfold := ⟨unfolding, hunfold, hunfold'⟩
      reached := fun j => (mem_occurrencesWithin_iff hunfold').symm
      once := by rw [hnumbers]; exact List.nodup_range'
      repeated := by rw [hnumbers, List.length_range']
      fresh := fun j hj => ?_
      places := fun j hj => copied.grows.places j hj (Set.notMem_empty j)
      nodes := copied.grows.nodes
      counters := by rw [← hcounters]; rfl
      live := copied.liveCount_eq
      elsewhere := by
        rw [← copied.grows.elsewhere]
        rfl }
  rw [hnumbers, List.mem_range'_1] at hj
  have hissued : j ∈ m.issuedUntil m' :=
    Finset.mem_Ico.mpr ⟨hj.1, hj.2.trans_eq copied.size.symm⟩
  exact ⟨hj.1, copied.of_issued hissued⟩

/-- Where no failure is armed, an object of the right kind is copied, and the copy is counted. -/
theorem cloneIf_of_object {m : Memory} {accepts : Object → Bool} {id : Nat} {object : Object}
    (harmed : m.failNextClone = false) (hobject : m.object? id = some object)
    (haccepts : accepts object = true) :
    m.cloneIf accepts (.ofId id) =
      match m.copy id with
      | (some made, m) => (some (.ofId made), m.count fun c => { c with clones := c.clones + 1 })
      | (none, m) => (none, m) := by
  have hfound : (m.find? (.ofId id)).filter accepts = some object := by
    rw [find?_ofId, hobject, Option.filter_some, if_pos haccepts]
  rcases hcopy : m.copy id with ⟨_ | made, m'⟩
  · simp only [cloneIf, harmed, hfound, hcopy, Handle.id?_ofId, Bool.false_eq_true, if_false]
  · simp only [cloneIf, harmed, hfound, hcopy, Handle.id?_ofId, Bool.false_eq_true, if_false]

end Memory

/-! ## Copying a list -/

open Memory in
/-- **Copying a list copies all that it holds.**  A list whose nesting is acyclic, and in which all
that is held is live, has a deep copy unless a failure is armed; the library owns it. -/
theorem Container.tryClone_of_list_is_deep (s : Session) (k : Container .list) {id : Nat}
    {l : ListObject} (hhost : k.host = .reference) (hhandle : k.handle = .ofId id)
    (hlist : s.memory.object? id = some (.list l)) (hintact : s.memory.Intact id)
    (hacyclic : s.memory.Acyclic id) (harmed : s.memory.failNextClone = false) :
    ∃ m', k.tryClone s =
        .ok ⟨.ofId s.memory.allocations.size, .library, .reference⟩ { s with memory := m' } ∧
      s.memory.DeepCopy id s.memory.allocations.size m' := by
  obtain ⟨unfolding, hunfold⟩ := exists_unfolding (Live.of_object hlist) hintact hacyclic
  obtain ⟨m', hcopy, copied⟩ := copy_spec hunfold
  refine ⟨_, ?_, copied.deepCopy hunfold⟩
  have hclone : Host.reference.clone .list (.ofId id) s.memory =
      (some (.ofId s.memory.allocations.size),
        m'.count fun c => { c with clones := c.clones + 1 }) := by
    show s.memory.cloneIf (copiedAs .list) (.ofId id) = _
    rw [cloneIf_of_object harmed hlist rfl, hcopy]
  have hrequire : k.require = .ok (.ofId id) := by
    rw [require, isEmpty, hhandle]
    rfl
  have hcopyHandle : copyHandle .list .reference (.ofId id) s =
      .ok (.ofId s.memory.allocations.size)
        { s with memory := m'.count fun c => { c with clones := c.clones + 1 } } := by
    rw [copyHandle, SessionM.bind_of_ok (SessionM.onMemory_apply _ s), hclone]
    rfl
  rw [tryClone, hrequire, hhost, SessionM.ofExcept_ok, pure_bind, SessionM.bind_of_ok hcopyHandle]
  rfl

/-- An array, a list that holds it under a name that it uses twice, and a list that holds that list
twice and a text without a name. -/
def Memory.shelf : Memory where
  allocations := #[⟨some (.array ⟨.numeric, 1, [2], 2, ⟨#[7, 9]⟩⟩), 4⟩, ⟨some (.list ⟨[0, 1]⟩), 0⟩,
    ⟨some (.list ⟨[2, 3, 4]⟩), 0⟩]
  nodes := #[⟨1, some [97], ArgumentKind.integer.code, .integer 5⟩,
    ⟨1, some [97], ArgumentKind.numericArray.code, .handle (.ofId 0)⟩,
    ⟨2, some [98], ArgumentKind.dataList.code, .handle (.ofId 1)⟩,
    ⟨2, some [99], ArgumentKind.dataList.code, .handle (.ofId 1)⟩,
    ⟨2, none, ArgumentKind.text.code, .text [104, 105]⟩]

open Memory in
theorem Container.tryClone_of_shelf :
    shelf.object? 2 = some (.list ⟨[2, 3, 4]⟩) ∧ shelf.Intact 2 ∧ shelf.Acyclic 2 ∧
      shelf.failNextClone = false ∧
    ∃ m', (⟨.ofId 2, .host, .reference⟩ : Container .list).tryClone { memory := shelf } =
        .ok ⟨.ofId 3, .library, .reference⟩ { memory := m' } ∧
      shelf.DeepCopy 2 3 m' ∧ m'.liveCount = 3 + 5 := by
  have hacyclic : shelf.Acyclic 2 := acyclic_of_lt (by decide) 2
  have hintact : shelf.Intact 2 := by
    intro id l hreach hl n hn
    have hid : id < 3 := hreach.live.lt_size
    obtain rfl | rfl | rfl : id = 0 ∨ id = 1 ∨ id = 2 := by omega
    · simp [shelf, object?] at hl
    · obtain rfl : ⟨[0, 1]⟩ = l := by simpa [shelf, object?] using hl
      obtain rfl | rfl : n = 0 ∨ n = 1 := by simpa using hn
      · exact ⟨_, rfl, by decide⟩
      · exact ⟨_, rfl, fun _ => ⟨0, by decide⟩⟩
    · obtain rfl : ⟨[2, 3, 4]⟩ = l := by simpa [shelf, object?] using hl
      obtain rfl | rfl | rfl : n = 2 ∨ n = 3 ∨ n = 4 := by simpa using hn
      · exact ⟨_, rfl, fun _ => ⟨1, by decide⟩⟩
      · exact ⟨_, rfl, fun _ => ⟨1, by decide⟩⟩
      · exact ⟨_, rfl, by decide⟩
  obtain ⟨m', hclone, hdeep⟩ := Container.tryClone_of_list_is_deep { memory := shelf }
    ⟨.ofId 2, .host, .reference⟩ rfl rfl rfl hintact hacyclic rfl
  exact ⟨rfl, hintact, hacyclic, rfl, m', hclone, hdeep, hdeep.live.trans (by decide)⟩

end Custody
