import Custody.Proofs.Estate.Trace
import Custody.Proofs.Memory.NodeTable
import Custody.Proofs.Memory.Nesting

/-!
# The balance of a memory

A host counts what it gives a library and what it is given back.  A memory is balanced if the counts
come out even with its objects: every object that was issued was given or built by the host, and
every one that is not live any more was released.

That holds as long as no list holds an object, since then objects are copied and released one at a
time, and as long as nobody sets the share counts, since then the first share that is given up is
the last one.

- `Memory.Flat`: no list holds an object, and no share is counted.
- `Memory.Balanced`: every object that was issued is accounted for by the counters.
- `Memory.admits_balanced`: whatever the host is asked for, a memory stays balanced.
-/

namespace Custody

namespace Memory

variable {m m' : Memory} {built : Nat}

/-! ## Flat memories -/

/-- How many objects the host gave at the request of a library. -/
def given (m : Memory) : Nat :=
  m.counters.allocations + m.counters.clones + m.counters.conversions

/-- No node holds an object, and no live object is shared. -/
structure Flat (m : Memory) : Prop where
  tabled : m.Tabled
  plain : ∀ node ∈ m.nodes.toList, nestedCategory? node.code = none
  unshared : ∀ id, m.Live id → m.shares (.ofId id) = 0

namespace Flat

theorem empty : ({} : Memory).Flat where
  tabled := tabled_empty
  plain node hnode := by simp at hnode
  unshared id hlive := absurd hlive.lt_size (Nat.not_lt_zero id)

theorem holdings_eq_nil (h : m.Flat) (id : Nat) : m.holdings id = [] := by
  rw [List.eq_nil_iff_forall_not_mem]
  intro held hheld
  obtain ⟨l, n, node, -, -, hnode, hnested⟩ := mem_holdings_iff.mp hheld
  have hplain := h.plain node (Array.mem_toList_iff.mpr (Array.mem_of_getElem? hnode))
  simp [nestedIn, hplain] at hnested

/-- An object reaches only itself. -/
theorem reach_eq (h : m.Flat) {id : Nat} (hlive : m.Live id) : m.reach id = {id} := by
  ext other
  rw [mem_reach, Set.mem_singleton_iff]
  constructor
  · intro hreach
    induction hreach with
    | root _ => rfl
    | step _ holds _ _ =>
      rw [h.holdings_eq_nil] at holds
      cases holds
  · rintro rfl
    exact .root hlive

/-- Changes by which no object comes or goes, and in which only plain nodes are appended. -/
theorem of_same_objects (h : m.Flat) {added : List Node} (hevolves : m.Evolves added ∅ m')
    (hplain : ∀ node ∈ added, nestedCategory? node.code = none)
    (hlive : ∀ id, m'.Live id ↔ m.Live id)
    (hshares : ∀ id, m'.shares (.ofId id) = m.shares (.ofId id)) : m'.Flat where
  tabled := hevolves.tabled h.tabled
  plain node hnode := by
    rw [hevolves.nodes_eq, List.mem_append] at hnode
    exact hnode.elim (h.plain node) (hplain node)
  unshared id hid := by
    rw [hshares]
    exact h.unshared id ((hlive id).mp hid)

end Flat

/-! ## Balanced memories -/

/-- All objects that were issued were given or built, and those that are not live were released. -/
structure Balanced (built : Nat) (m : Memory) : Prop where
  flat : m.Flat
  issued : m.allocations.size = built + m.given
  live : m.liveCount + m.releases = m.allocations.size

theorem liveCount_congr (h : ∀ id, m'.Live id ↔ m.Live id) : m'.liveCount = m.liveCount := by
  have hids : m'.liveIds = m.liveIds := by
    ext id
    rw [mem_liveIds, mem_liveIds, h]
  rw [← card_liveIds, hids, card_liveIds]

theorem liveCount_issue (m : Memory) (object : Object) :
    (m.issue object).2.liveCount = m.liveCount + 1 := by
  simp [liveCount, issue]

/-- One object less is live after one was cleared. -/
theorem liveCount_clearAll_singleton {id : Nat} (hlive : m.Live id) :
    (m.clearAll {id}).liveCount + 1 = m.liveCount := by
  have hids : (m.clearAll {id}).liveIds = m.liveIds.erase id := by
    ext other
    rw [Finset.mem_erase, mem_liveIds, mem_liveIds, live_clearAll, Set.mem_singleton_iff, and_comm]
  rw [← card_liveIds, ← card_liveIds, hids]
  exact Finset.card_erase_add_one (mem_liveIds.mpr hlive)

namespace Balanced

theorem empty : ({} : Memory).Balanced 0 := ⟨.empty, rfl, rfl⟩

/-- Changes by which no object comes or goes, and nothing is counted. -/
theorem of_same_objects (h : m.Balanced built) {added : List Node}
    (hevolves : m.Evolves added ∅ m') (hplain : ∀ node ∈ added, nestedCategory? node.code = none)
    (hlive : ∀ id, m'.Live id ↔ m.Live id)
    (hshares : ∀ id, m'.shares (.ofId id) = m.shares (.ofId id))
    (hsize : m'.allocations.size = m.allocations.size) (hcounters : m'.counters = m.counters) :
    m'.Balanced built where
  flat := h.flat.of_same_objects hevolves hplain hlive hshares
  issued := by rw [hsize, h.issued, given, given, hcounters]
  live := by rw [liveCount_congr hlive, releases, hcounters, hsize, ← h.live, releases]

/-- Changes to what is neither an object nor a node nor a count. -/
theorem aside (h : m.Balanced built) (hallocations : m'.allocations = m.allocations)
    (hnodes : m'.nodes = m.nodes) (hcounters : m'.counters = m.counters) : m'.Balanced built := by
  have hobjects : ∀ id, m'.object? id = m.object? id := fun id => by
    rw [object?, object?, hallocations]
  have hsize : m'.allocations.size = m.allocations.size := congrArg Array.size hallocations
  refine h.of_same_objects (.aside .refl hobjects hnodes hsize) (by simp) (fun id => ?_)
    (fun id => ?_) hsize hcounters
  · rw [Live, Live, hobjects]
  · rw [shares_ofId, shares_ofId, hallocations]

/-- Elements are overwritten. -/
theorem setStorage (h : m.Balanced built) (handle : Handle) (storage : Storage) :
    (m.setStorage handle storage).Balanced built := by
  have hevolves : m.Evolves [] ∅ (m.setStorage handle storage) := .rewrite .refl handle storage
  exact h.of_same_objects hevolves (by simp) (fun id => live_setStorage m handle storage)
    (fun id => shares_setStorage m handle storage (.ofId id)) (size_setStorage m handle storage)
    (counters_setStorage m handle storage)

theorem writeIn (h : m.Balanced built) {b : BufferCategory} {kind : b.Kind} (t : Buffer kind)
    (hhost : t.container.host = .reference) (index : Nat) (values : List kind.element.Word) :
    (t.writeIn index values m).Balanced built := by
  rcases t.writeIn_cases hhost index values m with hsame | ⟨id, _, storage, -, -, hwritten⟩
  · rwa [hsame]
  · rw [hwritten]
    exact h.setStorage (.ofId id) _

/-- A list is given a plain value. -/
theorem pushNode (h : m.Balanced built) {node : Node} (hplain : nestedCategory? node.code = none)
    (hissued : node.list < m.allocations.size) : (m.pushNode node).Balanced built := by
  have hevolves : m.Evolves ([] ++ [node]) ∅ (m.pushNode node) := .append .refl node hissued
  refine h.of_same_objects hevolves (by simpa using hplain) (fun id => live_pushNode m node id)
    (fun id => ?_) (size_pushNode m node) rfl
  exact shares_modifyObject _ _ _ _

/-- An object that is issued, before it is counted. -/
theorem issue (h : m.Balanced built) {object : Object}
    (hempty : ∀ l, object = .list l → l.nodes = []) :
    (m.issue object).2.Balanced (built + 1) where
  flat :=
    { tabled := Evolves.tabled (.issue .refl object hempty) h.flat.tabled
      plain := h.flat.plain
      unshared := fun id hid => by
        by_cases hnew : id = m.allocations.size
        · rw [hnew, shares_issue_self]
        · rw [Live, object?_issue, if_neg hnew] at hid
          rw [shares_issue m object fun hsame => hnew (Handle.ofId_injective hsame)]
          exact h.flat.unshared id hid }
  issued := by
    have hissued := h.issued
    have hgiven : (m.issue object).2.given = m.given := rfl
    rw [size_issue, hgiven]
    omega
  live := by
    have hlive := h.live
    have hreleases : (m.issue object).2.releases = m.releases := rfl
    rw [size_issue, liveCount_issue, hreleases]
    omega

/-- An object that is counted as given was not built. -/
theorem count_given (h : m.Balanced (built + 1)) {f : Counters → Counters}
    (hgiven : (m.count f).given = m.given + 1) (hreleases : (m.count f).releases = m.releases) :
    (m.count f).Balanced built where
  flat := h.flat.of_same_objects (evolves_count m f) (by simp) (fun _ => .rfl) fun _ => rfl
  issued := by
    have hissued := h.issued
    rw [hgiven]
    show m.allocations.size = _
    omega
  live := by
    rw [hreleases]
    exact h.live

/-! ## Copies -/

/-- Plain nodes are copied one by one, and nothing else is. -/
theorem copyNodes (h : m.Balanced built) (copy : Nat → Memory → Option Nat × Memory) {target : Nat}
    (htarget : target < m.allocations.size) (ns : List Nat)
    (hns : ∀ n ∈ ns, n < m.nodes.size) :
    ∃ m', copyNodes copy target ns m = (true, m') ∧ m'.Balanced built := by
  induction ns generalizing m with
  | nil => exact ⟨m, rfl, h⟩
  | cons n ns ih =>
    have hn : n < m.nodes.size := hns n List.mem_cons_self
    have hplain := h.flat.plain m.nodes[n] (Array.getElem_mem_toList hn)
    have hpushed : (m.pushNode { m.nodes[n] with list := target }).Balanced built :=
      h.pushNode hplain htarget
    obtain ⟨m', hcopied, hm'⟩ := ih hpushed (by simpa using htarget) fun other hother => by
      rw [nodes_pushNode, Array.size_push]
      exact Nat.lt_succ_of_lt (hns other (List.mem_cons_of_mem n hother))
    refine ⟨m', ?_, hm'⟩
    simp only [Memory.copyNodes, Array.getElem?_eq_getElem hn, copyNode, hplain]
    exact hcopied

/-- A copy is one object more, whatever is copied. -/
theorem copyWithin (h : m.Balanced built) (depth : Nat) {id : Nat} {object : Object}
    (hobject : m.object? id = some object) :
    ∃ m', copyWithin (depth + 1) id m = (some m.allocations.size, m') ∧
      m'.Balanced (built + 1) := by
  unfold Memory.copyWithin
  rw [hobject]
  cases object with
  | list l =>
    have hissued : (m.issue (.list ⟨[]⟩)).2.Balanced (built + 1) := h.issue (by rintro l ⟨⟩; rfl)
    have hnodes : ∀ n ∈ l.nodes, n < (m.issue (.list ⟨[]⟩)).2.nodes.size := by
      intro n hn
      obtain ⟨node, hnode, -⟩ := h.flat.tabled.exists_node hobject hn
      exact (Array.getElem?_eq_some_iff.mp hnode).1
    have htarget : m.allocations.size < (m.issue (.list ⟨[]⟩)).2.allocations.size := by simp
    obtain ⟨m', hcopied, hm'⟩ :=
      hissued.copyNodes (Memory.copyWithin depth) htarget l.nodes hnodes
    exact ⟨m', by simp only [issue_fst, hcopied], hm'⟩
  | array a => exact ⟨_, rfl, h.issue (by simp)⟩
  | image i => exact ⟨_, rfl, h.issue (by simp)⟩

/-! ## What the host is asked for -/

theorem allocate (h : m.Balanced built) {object : Option Object}
    (hempty : ∀ l, object = some (.list l) → l.nodes = []) :
    (m.allocate object).2.Balanced built := by
  unfold Memory.allocate
  split
  · exact h.aside rfl rfl rfl
  · cases object with
    | none => exact h
    | some object =>
      have hissued : (m.issue object).2.Balanced (built + 1) :=
        h.issue fun l hl => hempty l (congrArg some hl)
      have hcounted : ((m.issue object).2.count
          fun c => { c with allocations := c.allocations + 1 }).Balanced built :=
        hissued.count_given (by simp only [given, count]; omega) rfl
      exact hcounted

theorem allocateImage (h : m.Balanced built) (request : ImageRequest) :
    (m.allocateImage request).2.Balanced built := by
  unfold Memory.allocateImage
  split
  · exact h
  · exact h.allocate (by simp)

theorem issueConverted (h : m.Balanced built) {object : Option Object}
    (hbuffer : ∀ l, object ≠ some (.list l)) : (m.issueConverted object).2.Balanced built := by
  unfold Memory.issueConverted
  split
  · exact h
  · cases object with
    | none => exact h
    | some object =>
      have hissued : (m.issue object).2.Balanced (built + 1) :=
        h.issue fun l hl => absurd (congrArg some hl) (hbuffer l)
      have hcounted : ((m.issue object).2.count
          fun c => { c with conversions := c.conversions + 1 }).Balanced built :=
        hissued.count_given (by simp only [given, count]; omega) rfl
      exact hcounted

/-- A copy that is not refused succeeds and is counted. -/
theorem cloneIf (h : m.Balanced built) (accepts : Object → Bool) (handle : Handle) :
    (m.cloneIf accepts handle).2.Balanced built := by
  unfold Memory.cloneIf
  split
  · exact h.aside rfl rfl rfl
  · split
    case h_1 id object hid hfound =>
      obtain ⟨hobject, -⟩ := Option.filter_eq_some_iff.mp hfound
      rw [Handle.id?_eq_some_iff.mp hid, find?_ofId] at hobject
      obtain ⟨depth, hdepth⟩ := Nat.exists_eq_add_of_lt (Live.of_object hobject).lt_size
      obtain ⟨m', hcopied, hm'⟩ := h.copyWithin (id + depth) hobject
      have hcounted : (m'.count fun c => { c with clones := c.clones + 1 }).Balanced built :=
        hm'.count_given (by simp only [given, count]; omega) rfl
      rw [Memory.copy, hdepth, hcopied]
      exact hcounted
    case h_2 => exact h

/-! ## What the host is given back -/

/-- The release of what is dead is counted apart. -/
private theorem count_mistake (h : m.Balanced built) :
    (m.count fun c => { c with doubleFrees := c.doubleFrees + 1 }).Balanced built where
  flat := h.flat.of_same_objects (evolves_count m _) (by simp) (fun _ => .rfl) fun _ => rfl
  issued := h.issued
  live := h.live

/-- An object that dies alone, and is counted as released. -/
private theorem released (h : m.Balanced built) {id : Nat} (hid : m.Live id) (hm' : m'.Tabled)
    (kills : m.Kills {id} m')
    (hshares : ∀ other ≠ id, m'.shares (.ofId other) = m.shares (.ofId other))
    (hsize : m'.allocations.size = m.allocations.size) (hgiven : m'.given = m.given)
    (hreleases : m'.releases = m.releases + 1) : m'.Balanced built := by
  have hlive : ∀ other, m'.Live other ↔ m.Live other ∧ other ≠ id := kills.live_iff
  refine ⟨⟨hm', fun node hnode => ?_, fun other hother => ?_⟩, ?_, ?_⟩
  · rw [kills.nodes_eq] at hnode
    exact h.flat.plain node hnode
  · obtain ⟨hbefore, hne⟩ := (hlive other).mp hother
    rw [hshares other hne]
    exact h.flat.unshared other hbefore
  · rw [hsize, hgiven, h.issued]
  · have hcount : m'.liveCount = (m.clearAll {id}).liveCount :=
      liveCount_congr fun other => by rw [hlive, live_clearAll, Set.mem_singleton_iff]
    have hone := liveCount_clearAll_singleton hid
    rw [hsize, hreleases, hcount, ← h.live]
    omega

theorem free (h : m.Balanced built) (handle : Handle) : (m.free handle).Balanced built := by
  cases hlive : m.isLive handle with
  | false =>
    rw [free_of_not_live hlive]
    exact h.count_mistake
  | true =>
    obtain ⟨id, rfl, hid⟩ := isLive_iff.mp hlive
    obtain ⟨gone, -, hevolves⟩ := evolves_free m (.ofId id)
    have kills := kills_free hid
    rw [h.flat.reach_eq hid] at kills
    refine h.released hid (hevolves.tabled h.flat.tabled) kills (fun other _ => ?_) ?_ ?_ ?_
    · rw [free_of_live hid]
      exact shares_clearAll m _ _
    · rw [free_of_live hid]
      exact size_clearAll m _
    · rw [given, counters_free hid, given]
    · exact releases_free hid

/-- Giving up a share releases an object, since there are no others. -/
theorem disown (h : m.Balanced built) (handle : Handle) : (m.disown handle).Balanced built := by
  cases hlive : m.isLive handle with
  | false =>
    rw [disown_of_not_live hlive]
    exact h.count_mistake
  | true =>
    obtain ⟨id, rfl, hid⟩ := isLive_iff.mp hlive
    obtain ⟨gone, -, hevolves⟩ := evolves_disown m (.ofId id)
    have hunshared := h.flat.unshared id hid
    have kills := kills_disown hid (by rw [hunshared]; decide)
    rw [hunshared, if_pos (by decide), h.flat.reach_eq hid] at kills
    refine h.released hid (hevolves.tabled h.flat.tabled) kills (fun other hne => ?_) ?_ ?_ ?_
    · rw [shares_disown hid, if_neg fun hsame => hne (Handle.ofId_injective hsame)]
    · rw [disown_of_live hid]
      split <;> simp [lowered, count]
    · rw [given, counters_disown hid, given]
    · exact releases_disown hid

end Balanced

/-- Whatever the host is asked for while a container is made, its memory stays balanced. -/
theorem admits_balanced (built : Nat) :
    Admits fun m m' => m.Balanced built → m'.Balanced built where
  refl _ h := h
  trans hfirst hlast h := hlast (hfirst h)
  newArray category code extents m h := h.allocate (by simp)
  newImage request m h := h.allocateImage request
  newList m h := h.allocate (by rintro l ⟨⟩; rfl)
  cloneIf accepts handle m h := h.cloneIf accepts handle
  convertImage handle code interleaved m h := h.issueConverted (by simp [Option.bind_eq_some_iff])
  write t hhost index values m h := h.writeIn t hhost index values
  free handle m h := h.free handle
  disown handle m h := h.disown handle

theorem converts_balanced (k : Container .numeric) :
    Converts (fun m m' => m.Balanced built → m'.Balanced built) m k := fun _ _ _ h =>
  h.issueConverted (by simp [Option.bind_eq_some_iff])

/-- What the host builds, if it is built at all, is one object. -/
theorem Balanced.builds (h : m.Balanced built) (hbuilds : m.Builds m') :
    m'.Balanced (built + (m.issuedUntil m').card) := by
  rcases hbuilds.eq_or_issue with rfl | ⟨object, hempty, rfl⟩
  · rwa [issuedUntil, Finset.Ico_self, Finset.card_empty]
  · rw [issuedUntil, size_issue, Nat.Ico_succ_singleton, Finset.card_singleton]
    exact h.issue hempty

end Memory

end Custody
