import Custody.Memory.Release
import Custody.Memory.Copy
import Mathlib.Data.Finset.Card
import Mathlib.Algebra.BigOperators.Group.Finset.Basic
import Mathlib.Algebra.BigOperators.Intervals

/-!
# Looking things up in a changed memory

What a memory answers after one of its elementary changes: an object is issued, an object is
replaced, a place is emptied, a node is appended.  Later modules look at memories through these
equations only and do not unfold the changes.

The set of live numbers, `Memory.liveIds`, stands beside the counter `Memory.liveCount`; the two
agree (`Memory.card_liveIds`).
-/

namespace Custody

theorem Handle.ofId_injective {a b : Nat} (h : ofId a = ofId b) : a = b := by
  simpa using congrArg id? h

namespace Memory

/-! ## Objects -/

/-- An object is a list, or it has no nodes at all. -/
theorem list_or_buffer (object : Object) :
    (∃ l, object = .list l) ∨ ∀ l, object ≠ .list l := by
  cases object with
  | list l => exact .inl ⟨l, rfl⟩
  | array a => exact .inr (by simp)
  | image i => exact .inr (by simp)

/-! ## Live objects -/

/-- An object is live while its place is not empty. -/
def Live (m : Memory) (id : Nat) : Prop := (m.object? id).isSome

instance (m : Memory) (id : Nat) : Decidable (m.Live id) :=
  inferInstanceAs (Decidable ((m.object? id).isSome = true))

theorem live_iff {m : Memory} {id : Nat} : m.Live id ↔ ∃ object, m.object? id = some object :=
  Option.isSome_iff_exists

theorem Live.of_object {m : Memory} {id : Nat} {object : Object}
    (h : m.object? id = some object) : m.Live id :=
  live_iff.mpr ⟨object, h⟩

theorem object?_eq_some_iff {m : Memory} {id : Nat} {object : Object} :
    m.object? id = some object ↔ ∃ shares, m.allocations[id]? = some ⟨some object, shares⟩ := by
  constructor
  · intro h
    obtain ⟨⟨place, shares⟩, hplace, hobject⟩ := Option.bind_eq_some_iff.mp h
    exact ⟨shares, by rw [hplace]; exact congrArg _ (by simpa using hobject)⟩
  · rintro ⟨shares, h⟩
    simp [object?, h]

/-- Only what was issued is live. -/
theorem Live.lt_size {m : Memory} {id : Nat} (h : m.Live id) : id < m.allocations.size := by
  obtain ⟨object, hobject⟩ := live_iff.mp h
  obtain ⟨shares, hplace⟩ := object?_eq_some_iff.mp hobject
  exact (Array.getElem?_eq_some_iff.mp hplace).1

/-- The numbers of the live objects. -/
def liveIds (m : Memory) : Finset Nat := (Finset.range m.allocations.size).filter m.Live

@[simp] theorem mem_liveIds {m : Memory} {id : Nat} : id ∈ m.liveIds ↔ m.Live id := by
  simp only [liveIds, Finset.mem_filter, Finset.mem_range]
  exact ⟨fun h => h.2, fun h => ⟨h.lt_size, h⟩⟩

private theorem card_filter_range_eq_countP (places : List Allocation) :
    ((Finset.range places.length).filter fun id =>
      ((places[id]?).bind (·.object)).isSome).card = places.countP (·.object.isSome) := by
  rw [Finset.card_filter]
  -- a place that is appended is the last of the range, and the others keep their numbers
  induction places using List.reverseRecOn with
  | nil => simp
  | append_singleton places last ih =>
    have hinit : ∀ id ∈ Finset.range places.length,
        (if (((places ++ [last])[id]?).bind (·.object)).isSome then 1 else 0) =
          (if ((places[id]?).bind (·.object)).isSome then 1 else 0) := by
      intro id hid
      rw [List.getElem?_append_left (Finset.mem_range.mp hid)]
    rw [List.length_append, List.length_singleton, Finset.sum_range_succ,
      Finset.sum_congr rfl hinit, ih]
    simp [List.countP_append, List.countP_cons]

theorem card_liveIds (m : Memory) : m.liveIds.card = m.liveCount := by
  have hcount := card_filter_range_eq_countP m.allocations.toList
  rw [Array.countP_toList, Array.length_toList] at hcount
  rw [liveCount, ← hcount]
  apply congrArg Finset.card
  apply Finset.filter_congr
  intro id _
  simp [Live, object?]

theorem find?_ofId (m : Memory) (id : Nat) : m.find? (.ofId id) = m.object? id := by
  simp [find?]

theorem find?_eq_some_iff {m : Memory} {h : Handle} {object : Object} :
    m.find? h = some object ↔ ∃ id, h = .ofId id ∧ m.object? id = some object := by
  simp only [find?, Option.bind_eq_some_iff, Handle.id?_eq_some_iff]

theorem isNull_of_find? {m : Memory} {h : Handle} {object : Object}
    (hfound : m.find? h = some object) : h.isNull = false := by
  obtain ⟨id, rfl, -⟩ := find?_eq_some_iff.mp hfound
  simp [Handle.isNull, Handle.ofId, addressOf]

@[simp] theorem isLive_ofId (m : Memory) (id : Nat) : m.isLive (.ofId id) = true ↔ m.Live id := by
  rw [isLive, find?_ofId]
  rfl

theorem isLive_of_id? {m : Memory} {h : Handle} {id : Nat} (hid : h.id? = some id) :
    m.isLive h = (m.object? id).isSome := by
  rw [isLive, find?, hid, Option.bind_some]

/-- A handle names a live object exactly if it is the handle of one. -/
theorem isLive_iff {m : Memory} {h : Handle} :
    m.isLive h = true ↔ ∃ id, h = .ofId id ∧ m.Live id := by
  constructor
  · intro hlive
    obtain ⟨object, hobject⟩ := Option.isSome_iff_exists.mp hlive
    obtain ⟨id, hid, hfound⟩ := Option.bind_eq_some_iff.mp hobject
    exact ⟨id, Handle.id?_eq_some_iff.mp hid, Live.of_object hfound⟩
  · rintro ⟨id, rfl, hlive⟩
    exact (isLive_ofId m id).mpr hlive

/-! ## Issuing -/

section Issue

variable (m : Memory) (object : Object)

@[simp] theorem issue_fst : (m.issue object).1 = m.allocations.size := rfl

@[simp] theorem nodes_issue : (m.issue object).2.nodes = m.nodes := rfl

@[simp] theorem size_issue :
    (m.issue object).2.allocations.size = m.allocations.size + 1 := by
  simp [issue]

theorem getElem?_issue (id : Nat) :
    (m.issue object).2.allocations[id]? =
      if id = m.allocations.size then some ⟨some object, 0⟩ else m.allocations[id]? := by
  simp [issue, Array.getElem?_push]

theorem object?_issue (id : Nat) :
    (m.issue object).2.object? id =
      if id = m.allocations.size then some object else m.object? id := by
  rw [object?, getElem?_issue]
  split <;> rfl

@[simp] theorem object?_issue_self :
    (m.issue object).2.object? m.allocations.size = some object := by
  rw [object?_issue, if_pos rfl]

end Issue

/-! ## Replacing objects -/

@[simp] theorem nodes_modifyObject (m : Memory) (id : Nat) (f : Object → Object) :
    (m.modifyObject id f).nodes = m.nodes := rfl

@[simp] theorem size_modifyObject (m : Memory) (id : Nat) (f : Object → Object) :
    (m.modifyObject id f).allocations.size = m.allocations.size := by
  simp [modifyObject]

theorem getElem?_modifyObject (m : Memory) (id : Nat) (f : Object → Object) (other : Nat) :
    (m.modifyObject id f).allocations[other]? =
      if id = other then (m.allocations[other]?).map fun a => { a with object := a.object.map f }
      else m.allocations[other]? := by
  simp [modifyObject, Array.getElem?_modify]

theorem object?_modifyObject (m : Memory) (id : Nat) (f : Object → Object) (other : Nat) :
    (m.modifyObject id f).object? other =
      if id = other then (m.object? other).map f else m.object? other := by
  simp only [object?, getElem?_modifyObject]
  split
  · cases m.allocations[other]? <;> rfl
  · rfl

/-- An object that is replaced as soon as it was issued might have been issued as what it is. -/
theorem modifyObject_issue (m : Memory) (object : Object) (f : Object → Object) :
    (m.issue object).2.modifyObject m.allocations.size f = (m.issue (f object)).2 := by
  have hallocations : ((m.issue object).2.modifyObject m.allocations.size f).allocations =
      (m.issue (f object)).2.allocations := by
    apply Array.ext_getElem?
    intro id
    rw [getElem?_modifyObject, getElem?_issue, getElem?_issue]
    by_cases hid : id = m.allocations.size
    · simp [hid]
    · simp [hid, Ne.symm hid]
  exact congrArg (fun allocations => { m with allocations }) hallocations

/-! ## Counters and shares -/

@[simp] theorem object?_count (m : Memory) (f : Counters → Counters) (id : Nat) :
    (m.count f).object? id = m.object? id := rfl

@[simp] theorem nodes_count (m : Memory) (f : Counters → Counters) :
    (m.count f).nodes = m.nodes := rfl

theorem shares_ofId (m : Memory) (id : Nat) :
    m.shares (.ofId id) = ((m.allocations[id]?).map (·.shares)).getD 0 := by
  simp only [shares, Handle.id?_ofId, Option.bind_some]
  cases m.allocations[id]? <;> rfl

theorem shares_issue (m : Memory) (object : Object) {h : Handle}
    (hnew : h ≠ .ofId m.allocations.size) : (m.issue object).2.shares h = m.shares h := by
  unfold shares
  cases hid : h.id? with
  | none => rfl
  | some id =>
    have hne : id ≠ m.allocations.size := by
      rintro rfl
      exact hnew (Handle.id?_eq_some_iff.mp hid)
    simp only [Option.bind_some, getElem?_issue, if_neg hne]

theorem shares_issue_self (m : Memory) (object : Object) :
    (m.issue object).2.shares (.ofId m.allocations.size) = 0 := by
  rw [shares_ofId, getElem?_issue, if_pos rfl]
  rfl

@[simp] theorem shares_modifyObject (m : Memory) (id : Nat) (f : Object → Object) (h : Handle) :
    (m.modifyObject id f).shares h = m.shares h := by
  unfold shares
  cases h.id? with
  | none => rfl
  | some other =>
    simp only [Option.bind_some, getElem?_modifyObject]
    by_cases hsame : id = other
    · cases m.allocations[other]? <;> simp [hsame]
    · simp [hsame]

@[simp] theorem nodes_setShares (m : Memory) (h : Handle) (shares : Int64) :
    (m.setShares h shares).nodes = m.nodes := by
  unfold setShares
  cases h.id? <;> rfl

theorem getElem?_setShares (m : Memory) (id : Nat) (shares : Int64) (other : Nat) :
    (m.setShares (.ofId id) shares).allocations[other]? =
      if id = other then (m.allocations[other]?).map fun a => { a with shares }
      else m.allocations[other]? := by
  simp [setShares, Array.getElem?_modify]

@[simp] theorem object?_setShares (m : Memory) (h : Handle) (shares : Int64) (id : Nat) :
    (m.setShares h shares).object? id = m.object? id := by
  cases hid : h.id? with
  | none => simp [setShares, hid]
  | some other =>
    obtain rfl := Handle.id?_eq_some_iff.mp hid
    simp only [object?, getElem?_setShares]
    split
    · cases m.allocations[id]? <;> rfl
    · rfl

/-- Setting the share count of a live object sets that one and no other. -/
theorem shares_setShares {m : Memory} {id : Nat} (hlive : m.Live id) (shares : Int64)
    (h : Handle) :
    (m.setShares (.ofId id) shares).shares h = if h = .ofId id then shares else m.shares h := by
  obtain ⟨object, hobject⟩ := live_iff.mp hlive
  obtain ⟨before, hplace⟩ := object?_eq_some_iff.mp hobject
  cases hid : h.id? with
  | none =>
    have hne : h ≠ .ofId id := by
      rintro rfl
      simp at hid
    simp [Memory.shares, hid, hne]
  | some other =>
    obtain rfl := Handle.id?_eq_some_iff.mp hid
    rw [shares_ofId, shares_ofId, getElem?_setShares]
    by_cases hother : id = other
    · subst hother
      simp [hplace]
    · have hne : Handle.ofId other ≠ .ofId id := fun h => hother (Handle.ofId_injective h).symm
      rw [if_neg hother, if_neg hne]

/-! ## Appending nodes -/

/-- The object of a list with one more node at the end; any other object stays as it is. -/
def appended (number : Nat) : Object → Object
  | .list l => .list ⟨l.nodes ++ [number]⟩
  | object => object

section PushNode

variable (m : Memory) (node : Node)

theorem pushNode_eq :
    m.pushNode node =
      { m with nodes := m.nodes.push node }.modifyObject node.list (appended m.nodes.size) := by
  have happend : (fun | .list l => .list ⟨l.nodes ++ [m.nodes.size]⟩ | object => object) =
      appended m.nodes.size := by
    funext object
    cases object <;> rfl
  rw [← happend]
  rfl

@[simp] theorem nodes_pushNode : (m.pushNode node).nodes = m.nodes.push node := rfl

@[simp] theorem size_pushNode :
    (m.pushNode node).allocations.size = m.allocations.size := by
  rw [pushNode_eq, size_modifyObject]

theorem getElem?_pushNode (id : Nat) :
    (m.pushNode node).allocations[id]? =
      if node.list = id then
        (m.allocations[id]?).map fun a => { a with object := a.object.map (appended m.nodes.size) }
      else m.allocations[id]? := by
  rw [pushNode_eq, getElem?_modifyObject]

theorem object?_pushNode (id : Nat) :
    (m.pushNode node).object? id =
      if node.list = id then (m.object? id).map (appended m.nodes.size) else m.object? id := by
  rw [pushNode_eq, object?_modifyObject]
  rfl

@[simp] theorem live_pushNode (id : Nat) : (m.pushNode node).Live id ↔ m.Live id := by
  rw [Live, Live, object?_pushNode]
  split
  · rw [Option.isSome_map]
  · rfl

@[simp] theorem liveIds_pushNode : (m.pushNode node).liveIds = m.liveIds := by
  ext id
  rw [mem_liveIds, mem_liveIds, live_pushNode]

end PushNode

end Memory

end Custody
