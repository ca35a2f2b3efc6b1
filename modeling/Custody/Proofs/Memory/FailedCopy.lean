import Custody.Proofs.Memory.Levels
import Custody.Proofs.Memory.Expand

/-!
# Copies that fail

A host refuses a copy because a failure is armed, or because the handle names nothing that can be
copied as it is asked for.  It then leaves its memory alone.  The copy of a list can also stop half
way, at something that the list is to hold and that has died.  The new list has been issued by then,
with what was copied into it, and it stays (`Memory.Forsakes`).

- `Memory.Copyable`: what a host copies, if it is not armed to fail.
- `Memory.cloneIf_eq_none_iff`: it copies nothing else, and all of this.
- `Memory.cloneIf_of_none`: what it leaves behind where it copies nothing.
-/

namespace Custody

namespace Memory

variable {m m' : Memory}

/-! ## What stays after a failure -/

/-- Of what was issued along the way, all is live but what has died. -/
theorem Evolves.live_of_issued {added : List Node} {gone : Set Nat} (h : m.Evolves added gone m')
    {id : Nat} (hissued : id ∈ m.issuedUntil m') (hid : id ∉ gone) : m'.Live id := by
  obtain ⟨hlow, hhigh⟩ := Finset.mem_Ico.mp hissued
  clear hissued
  induction h with
  | refl => omega
  | aside _ objects _ size ih =>
    rw [Live, objects]
    exact ih hid (by omega)
  | rewrite _ handle storage ih =>
    rw [size_setStorage] at hhigh
    exact (live_setStorage _ handle storage).mpr (ih hid hhigh)
  | @issue _ _ before _ object _ ih =>
    rw [size_issue] at hhigh
    rw [Live, object?_issue]
    split
    · rfl
    · exact ih hid (by omega)
  | append _ node _ ih =>
    rw [size_pushNode] at hhigh
    exact (live_pushNode _ node id).mpr (ih hid hhigh)
  | clear _ more ih =>
    rw [size_clearAll] at hhigh
    rw [Set.mem_union, not_or] at hid
    exact (live_clearAll _ more).mpr ⟨ih hid.1 hhigh, hid.2⟩

/-- A list stays one as long as it is live. -/
theorem Evolves.list {added : List Node} {gone : Set Nat} (h : m.Evolves added gone m') {id : Nat}
    {l : ListObject} (hl : m.object? id = some (.list l)) (hid : id ∉ gone) :
    ∃ l', m'.object? id = some (.list l') := by
  induction h with
  | refl => exact ⟨l, hl⟩
  | aside _ objects _ _ ih =>
    rw [objects]
    exact ih hid
  | rewrite _ handle storage ih =>
    obtain ⟨l', hl'⟩ := ih hid
    exact ⟨l', (object?_setStorage_eq_list_iff _ handle storage).mpr hl'⟩
  | issue _ object _ ih =>
    obtain ⟨l', hl'⟩ := ih hid
    refine ⟨l', ?_⟩
    rw [object?_issue, if_neg (Live.of_object hl').lt_size.ne, hl']
  | append _ node _ ih =>
    obtain ⟨l', hl'⟩ := ih hid
    exact ⟨_, (object?_pushNode_eq_list_iff _ node).mpr ⟨l', hl', rfl⟩⟩
  | clear _ more ih =>
    rw [Set.mem_union, not_or] at hid
    obtain ⟨l', hl'⟩ := ih hid.1
    refine ⟨l', ?_⟩
    rw [object?_clearAll, if_neg hid.2, hl']

/-- Nothing is different but that a failure may be armed no longer. -/
def Spares (m m' : Memory) : Prop := { m' with failNextClone := m.failNextClone } = m

/-- All that was there before is as it was.  A new list is live that no list holds, and so is
everything that was issued after it. -/
structure Forsakes (m m' : Memory) : Prop where
  grows : m.Grows ∅ m'
  live : m'.liveIds = m.liveIds ∪ m.issuedUntil m'
  list : ∃ l, m'.object? m.allocations.size = some (.list l)
  unheld : ∀ id, m.allocations.size ∉ m'.holdings id

/-- However far the copying of a list comes, the new list is there. -/
theorem list_copyWithin (depth : Nat) {id : Nat} {l : ListObject}
    (hl : m.object? id = some (.list l)) :
    ∃ l', (copyWithin (depth + 1) id m).2.object? m.allocations.size = some (.list l') := by
  have htarget : m.allocations.size < (m.issue (.list ⟨[]⟩)).2.allocations.size := by simp
  obtain ⟨added, hexpands, -, -⟩ :=
    expands_copyNodes (transcribes_copyWithin depth) le_rfl l.nodes htarget
  have hstays := hexpands.evolves.list (object?_issue_self m _) (Set.notMem_empty _)
  simp only [copyWithin, hl, issue_fst]
  rcases hresult : copyNodes (copyWithin depth) m.allocations.size l.nodes
    (m.issue (.list ⟨[]⟩)).2 with ⟨_ | _, m'⟩
  · rwa [hresult] at hstays
  · rwa [hresult] at hstays

/-- If nobody is given the handle of the new list, the copying of a list forsakes it. -/
theorem forsakes_copy (hnames : m.NamesOthers) {id : Nat} {l : ListObject}
    (hl : m.object? id = some (.list l)) : m.Forsakes (m.copy id).2 := by
  have hupward : CopiesUpward (copyWithin m.allocations.size) := rises_copyWithin _
  have hgrows : m.Grows ∅ (m.copy id).2 := hupward.grows id m
  have hrises : Rises m.allocations.size m (m.copy id).2 := hupward.rises id m
  obtain ⟨added, htranscribed⟩ := transcribed_copy m id
  have hevolves := htranscribed.expands.evolves
  have hlive : ∀ other ∈ m.issuedUntil (m.copy id).2, (m.copy id).2.Live other :=
    fun other hother => hevolves.live_of_issued hother (Set.notMem_empty other)
  refine ⟨hgrows, hgrows.liveIds_eq hlive, ?_, fun holder hheld => ?_⟩
  · obtain ⟨depth, hdepth⟩ := Nat.exists_eq_add_of_lt (Live.of_object hl).lt_size
    have hmade := list_copyWithin (id + depth) hl
    rwa [← hdepth] at hmade
  · obtain ⟨l', n, node, hl', hn, hnode, hnested⟩ := mem_holdings_iff.mp hheld
    by_cases hnew : m.nodes.size ≤ n
    -- a node that was added names something above its list, and its list is new
    · obtain ⟨hlist, habove⟩ := hrises.added n node hnew hnode
      have := (habove _ hnested).1
      omega
    · have hold := Array.getElem?_eq_getElem (not_le.mp hnew)
      have hsame : m.nodes[n] = node := Option.some.inj ((hgrows.nodes n _ hold).symm.trans hnode)
      have := (hnames node (hsame ▸ Array.getElem_mem_toList _) _ hnested).1
      omega

/-! ## What a host refuses to copy -/

/-- The handle names a live object that is copied as it is asked for, and all that this reaches can
be copied. -/
def Copyable (m : Memory) (accepts : Object → Bool) (h : Handle) : Prop :=
  ∃ id object, h = .ofId id ∧ m.object? id = some object ∧ accepts object = true ∧ m.Intact id

section Refused

variable {accepts : Object → Bool} {h : Handle}

/-- If a failure is armed, it is used up and that is all. -/
theorem cloneIf_of_armed (harmed : m.failNextClone = true) :
    m.cloneIf accepts h = (none, { m with failNextClone := false }) := by
  rw [cloneIf, if_pos harmed]

/-- What is not there, or not to be copied like this, is refused at once. -/
theorem cloneIf_of_not_found (harmed : m.failNextClone = false)
    (hfound : ¬ ∃ id object, h = .ofId id ∧ m.object? id = some object ∧ accepts object = true) :
    m.cloneIf accepts h = (none, m) := by
  unfold cloneIf
  rw [harmed]
  split
  case isTrue hcontra => cases hcontra
  case isFalse =>
    split
    case h_1 id object hid hobject =>
      rw [Handle.id?_eq_some_iff.mp hid, find?_ofId, Option.filter_eq_some_iff] at hobject
      exact absurd ⟨id, object, Handle.id?_eq_some_iff.mp hid, hobject⟩ hfound
    case h_2 => rfl

/-- A host copies what is copyable, unless it is armed to fail. -/
theorem cloneIf_eq_none_iff (hm : m.Tabled) (hnames : m.NamesOthers)
    (hacyclic : ∀ id, m.Acyclic id) :
    (m.cloneIf accepts h).1 = none ↔ m.failNextClone = true ∨ ¬ m.Copyable accepts h := by
  cases harmed : m.failNextClone with
  | true => simp [cloneIf_of_armed harmed]
  | false =>
    by_cases hfound : ∃ id object, h = .ofId id ∧ m.object? id = some object ∧ accepts object = true
    · obtain ⟨id, object, rfl, hobject, haccepts⟩ := hfound
      have hcopied : (m.cloneIf accepts (.ofId id)).1 = none ↔ (m.copy id).1 = none := by
        rw [cloneIf_of_object harmed hobject haccepts]
        rcases m.copy id with ⟨_ | made, m'⟩
        · simp
        · simp
      have hcopyable : m.Copyable accepts (.ofId id) ↔ m.Intact id := by
        constructor
        · rintro ⟨other, _, hother, -, -, hintact⟩
          rwa [Handle.ofId_injective hother]
        · exact fun hintact => ⟨id, object, rfl, hobject, haccepts, hintact⟩
      rw [hcopied, hcopyable]
      constructor
      · intro hnone
        refine .inr fun hintact => ?_
        obtain ⟨unfolding, hunfold⟩ :=
          exists_unfolding (Live.of_object hobject) hintact (hacyclic id)
        obtain ⟨m', hmade, -⟩ := copy_spec hunfold
        rw [hmade] at hnone
        cases hnone
      · rintro (hcontra | hbroken)
        · cases hcontra
        · exact copy_eq_none_of_not_intact hm hnames hbroken
    · rw [cloneIf_of_not_found harmed hfound]
      refine iff_of_true rfl (.inr ?_)
      rintro ⟨id, object, hid, hobject, haccepts, -⟩
      exact hfound ⟨id, object, hid, hobject, haccepts⟩

/-- A list is to be copied, and no failure is armed. -/
def Undertakes (m : Memory) (accepts : Object → Bool) (h : Handle) : Prop :=
  m.failNextClone = false ∧
    ∃ id l, h = .ofId id ∧ m.object? id = some (.list l) ∧ accepts (.list l) = true

/-- Where nothing is copied, all is as before, unless the copying of a list was begun: then a list
is forsaken. -/
theorem cloneIf_of_none (hnames : m.NamesOthers) (hnone : (m.cloneIf accepts h).1 = none) :
    (m.Undertakes accepts h → m.Forsakes (m.cloneIf accepts h).2) ∧
      (¬ m.Undertakes accepts h → m.Spares (m.cloneIf accepts h).2) := by
  constructor
  · rintro ⟨harmed, id, l, rfl, hl, haccepts⟩
    have hforsakes := forsakes_copy hnames hl
    rw [cloneIf_of_object harmed hl haccepts] at hnone ⊢
    rcases hcopied : m.copy id with ⟨_ | made, m'⟩
    · rwa [hcopied] at hforsakes
    · simp [hcopied] at hnone
  · intro hidle
    cases harmed : m.failNextClone with
    | true =>
      rw [cloneIf_of_armed harmed]
      show { m with failNextClone := m.failNextClone } = m
      rfl
    | false =>
      by_cases hfound :
        ∃ id object, h = .ofId id ∧ m.object? id = some object ∧ accepts object = true
      · obtain ⟨id, object, rfl, hobject, haccepts⟩ := hfound
        rcases list_or_buffer object with ⟨l, rfl⟩ | hbuffer
        · exact absurd ⟨harmed, id, l, rfl, hobject, haccepts⟩ hidle
        -- a buffer that is found is copied
        · rw [cloneIf_of_object harmed hobject haccepts, copy_of_buffer hobject hbuffer] at hnone
          cases hnone
      · rw [cloneIf_of_not_found harmed hfound]
        rfl

end Refused

end Memory

end Custody
