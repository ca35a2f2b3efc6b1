import Custody.Proofs.Memory.Lookup
import Mathlib.Data.Set.Basic

/-!
# Which objects hold which

A live list holds the objects that its nodes name.  `Memory.Reaches` follows that relation through
live objects only: it is what a release has to follow, and what a deep copy has to repeat.

`Memory.clearAll` empties the places of a whole set of objects and changes nothing else.  A set that
is closed under holding can be cleared without disturbing who reaches what outside of it
(`Memory.reaches_clearAll_iff`).
-/

namespace Custody

namespace Memory

/-! ## Holding -/

/-- The numbers that the nodes of a live object name, in the order of its nodes. -/
def holdings (m : Memory) (id : Nat) : List Nat :=
  match m.object? id with
  | some object => m.nested object
  | none => []

theorem holdings_of_object {m : Memory} {id : Nat} {object : Object}
    (h : m.object? id = some object) : m.holdings id = m.nested object := by
  simp [holdings, h]

theorem holdings_of_none {m : Memory} {id : Nat} (h : m.object? id = none) :
    m.holdings id = [] := by
  simp [holdings, h]

/-- Only live objects hold anything. -/
theorem live_of_mem_holdings {m : Memory} {a b : Nat} (h : b ∈ m.holdings a) : m.Live a := by
  cases hobject : m.object? a with
  | none => simp [holdings_of_none hobject] at h
  | some object => exact Live.of_object hobject

/-- What an object holds depends on the object and the node table alone. -/
theorem holdings_congr {m m' : Memory} {id : Nat} (hobject : m'.object? id = m.object? id)
    (hnodes : m'.nodes = m.nodes) : m'.holdings id = m.holdings id := by
  simp only [holdings, hobject]
  cases m.object? id with
  | none => rfl
  | some object => cases object <;> simp [nested, hnodes]

/-! ## Reaching -/

/-- There is a path of live objects from one object to another, each holding the next. -/
inductive Reaches (m : Memory) (root : Nat) : Nat → Prop where
  | root (live : m.Live root) : Reaches m root root
  | step {a b : Nat} (path : Reaches m root a) (holds : b ∈ m.holdings a) (live : m.Live b) :
      Reaches m root b

namespace Reaches

variable {m : Memory} {a b c : Nat}

theorem live (h : m.Reaches a b) : m.Live b := by
  cases h with
  | root live => exact live
  | step _ _ live => exact live

theorem live_root (h : m.Reaches a b) : m.Live a := by
  induction h with
  | root live => exact live
  | step _ _ _ ih => exact ih

theorem trans (hab : m.Reaches a b) (hbc : m.Reaches b c) : m.Reaches a c := by
  -- the second path is put on the first step by step
  induction hbc with
  | root _ => exact hab
  | step _ holds live ih => exact .step ih holds live

/-- A path may as well be begun with a step. -/
theorem head (holds : b ∈ m.holdings a) (hbc : m.Reaches b c) : m.Reaches a c :=
  .trans (.step (.root (live_of_mem_holdings holds)) holds hbc.live_root) hbc

/-- Paths survive where no object is lost and no object loses anything that it holds. -/
theorem mono {m' : Memory} (hlive : ∀ id, m.Live id → m'.Live id)
    (hholds : ∀ id other, other ∈ m.holdings id → other ∈ m'.holdings id)
    (h : m.Reaches a b) : m'.Reaches a b := by
  induction h with
  | root live => exact .root (hlive _ live)
  | step _ holds live ih => exact .step ih (hholds _ _ holds) (hlive _ live)

/-- Paths depend on the objects and the node table alone. -/
theorem congr_iff {m' : Memory} (hobjects : ∀ id, m'.object? id = m.object? id)
    (hnodes : m'.nodes = m.nodes) : m'.Reaches a b ↔ m.Reaches a b := by
  have hlive : ∀ id, m'.Live id ↔ m.Live id := fun id => by rw [Live, Live, hobjects]
  have hholds : ∀ id, m'.holdings id = m.holdings id := fun id =>
    holdings_congr (hobjects id) hnodes
  constructor
  · exact mono (fun id => (hlive id).mp) fun id _ holds => hholds id ▸ holds
  · exact mono (fun id => (hlive id).mpr) fun id _ holds => (hholds id).symm ▸ holds

end Reaches

/-- Everything that an object reaches. -/
def reach (m : Memory) (root : Nat) : Set Nat := {id | m.Reaches root id}

@[simp] theorem mem_reach {m : Memory} {root id : Nat} : id ∈ m.reach root ↔ m.Reaches root id :=
  Iff.rfl

/-- Dead objects reach nothing. -/
theorem reach_of_not_live {m : Memory} {root : Nat} (h : ¬ m.Live root) : m.reach root = ∅ := by
  ext id
  simp only [mem_reach, Set.mem_empty_iff_false, iff_false]
  exact fun hreach => h hreach.live_root

theorem reach_congr {m m' : Memory} (hobjects : ∀ id, m'.object? id = m.object? id)
    (hnodes : m'.nodes = m.nodes) (root : Nat) : m'.reach root = m.reach root := by
  ext id
  exact Reaches.congr_iff hobjects hnodes

/-- A set of objects to which belongs whatever its objects hold, as far as it is live. -/
def Closed (m : Memory) (ids : Set Nat) : Prop :=
  ∀ a ∈ ids, ∀ b ∈ m.holdings a, m.Live b → b ∈ ids

theorem closed_reach (m : Memory) (root : Nat) : m.Closed (m.reach root) :=
  fun _ ha _ holds live => Reaches.step ha holds live

/-! ## Clearing a set of objects -/

open Classical in
/-- Empty the places of a set of objects. -/
noncomputable def clearAll (m : Memory) (gone : Set Nat) : Memory :=
  { m with
    allocations := m.allocations.mapIdx fun id a =>
      if id ∈ gone then { a with object := none } else a }

section ClearAll

variable (m : Memory) (gone : Set Nat)

@[simp] theorem nodes_clearAll : (m.clearAll gone).nodes = m.nodes := rfl

@[simp] theorem counters_clearAll : (m.clearAll gone).counters = m.counters := rfl

@[simp] theorem size_clearAll : (m.clearAll gone).allocations.size = m.allocations.size := by
  simp [clearAll]

open Classical in
theorem getElem?_clearAll (id : Nat) :
    (m.clearAll gone).allocations[id]? =
      (m.allocations[id]?).map fun a => if id ∈ gone then { a with object := none } else a := by
  simp [clearAll, Array.getElem?_mapIdx]

open Classical in
theorem object?_clearAll (id : Nat) :
    (m.clearAll gone).object? id = if id ∈ gone then none else m.object? id := by
  rw [object?, object?, getElem?_clearAll]
  cases m.allocations[id]? with
  | none => simp
  | some a => by_cases hid : id ∈ gone <;> simp [hid]

theorem shares_clearAll (h : Handle) : (m.clearAll gone).shares h = m.shares h := by
  simp only [shares]
  cases hid : h.id? with
  | none => rfl
  | some id =>
    simp only [Option.bind_some, getElem?_clearAll]
    cases m.allocations[id]? with
    | none => rfl
    | some a => by_cases hgone : id ∈ gone <;> simp [hgone]

@[simp] theorem live_clearAll {id : Nat} : (m.clearAll gone).Live id ↔ m.Live id ∧ id ∉ gone := by
  rw [Live, object?_clearAll]
  by_cases hid : id ∈ gone <;> simp [hid, Live]

theorem clearAll_empty : m.clearAll ∅ = m := by
  have hallocations : (m.clearAll ∅).allocations = m.allocations := by
    apply Array.ext_getElem?
    intro id
    rw [getElem?_clearAll]
    cases m.allocations[id]? <;> simp
  exact congrArg (fun allocations => { m with allocations }) hallocations

theorem clearAll_clearAll (more : Set Nat) :
    (m.clearAll gone).clearAll more = m.clearAll (gone ∪ more) := by
  have hallocations : ((m.clearAll gone).clearAll more).allocations =
      (m.clearAll (gone ∪ more)).allocations := by
    apply Array.ext_getElem?
    intro id
    rw [getElem?_clearAll, getElem?_clearAll, getElem?_clearAll]
    cases m.allocations[id]? with
    | none => rfl
    | some a =>
      by_cases hgone : id ∈ gone <;> by_cases hmore : id ∈ more <;> simp [hgone, hmore]
  exact congrArg (fun allocations => { m with allocations }) hallocations

theorem clear_eq_clearAll (id : Nat) : m.clear id = m.clearAll {id} := by
  have hallocations : (m.clear id).allocations = (m.clearAll {id}).allocations := by
    apply Array.ext_getElem?
    intro other
    rw [getElem?_clearAll]
    simp only [clear, Array.getElem?_modify, Set.mem_singleton_iff]
    by_cases hother : id = other
    · subst hother
      simp
    · simp [hother, Ne.symm hother]
  exact congrArg (fun allocations => { m with allocations }) hallocations

theorem holdings_clearAll {id : Nat} (hid : id ∉ gone) :
    (m.clearAll gone).holdings id = m.holdings id :=
  holdings_congr (by rw [object?_clearAll, if_neg hid]) rfl

theorem holdings_clearAll_of_mem {id : Nat} (hid : id ∈ gone) :
    (m.clearAll gone).holdings id = [] :=
  holdings_of_none (by rw [object?_clearAll, if_pos hid])

theorem mem_holdings_clearAll {a b : Nat} :
    b ∈ (m.clearAll gone).holdings a ↔ b ∈ m.holdings a ∧ a ∉ gone := by
  by_cases ha : a ∈ gone
  · simp [holdings_clearAll_of_mem m gone ha, ha]
  · simp [holdings_clearAll m gone ha, ha]

/-- Clearing opens no new paths. -/
theorem Reaches.of_clearAll {m : Memory} {gone : Set Nat} {a b : Nat}
    (h : (m.clearAll gone).Reaches a b) : m.Reaches a b :=
  h.mono (fun _ live => ((live_clearAll m gone).mp live).1)
    fun _ _ holds => ((mem_holdings_clearAll m gone).mp holds).1

/-- Clearing a closed set cuts off exactly its own objects. -/
theorem reaches_clearAll_iff {m : Memory} {gone : Set Nat} (hclosed : m.Closed gone) {a b : Nat} :
    (m.clearAll gone).Reaches a b ↔ m.Reaches a b ∧ b ∉ gone := by
  constructor
  · intro h
    exact ⟨h.of_clearAll, ((live_clearAll m gone).mp h.live).2⟩
  · rintro ⟨h, hb⟩
    induction h with
    | root live => exact .root ((live_clearAll m gone).mpr ⟨live, hb⟩)
    | @step a b _ holds live ih =>
      -- the holder is outside of the set, for otherwise the set would contain what it holds
      have ha : a ∉ gone := fun ha => hb (hclosed a ha b holds live)
      exact .step (ih ha) ((mem_holdings_clearAll m gone).mpr ⟨holds, ha⟩)
        ((live_clearAll m gone).mpr ⟨live, hb⟩)

theorem liveIds_clearAll : (m.clearAll gone).liveIds ⊆ m.liveIds := by
  intro id hid
  rw [mem_liveIds] at hid ⊢
  exact ((live_clearAll m gone).mp hid).1

theorem liveCount_clearAll_le : (m.clearAll gone).liveCount ≤ m.liveCount := by
  rw [← card_liveIds, ← card_liveIds]
  exact Finset.card_le_card (liveIds_clearAll m gone)

theorem liveCount_clearAll_lt {id : Nat} (hid : id ∈ gone) (hlive : m.Live id) :
    (m.clearAll gone).liveCount < m.liveCount := by
  rw [← card_liveIds, ← card_liveIds]
  apply Finset.card_lt_card
  rw [Finset.ssubset_iff_of_subset (liveIds_clearAll m gone)]
  have hdead : id ∉ (m.clearAll gone).liveIds := by
    rw [mem_liveIds, live_clearAll]
    exact fun h => h.2 hid
  exact ⟨id, mem_liveIds.mpr hlive, hdead⟩

end ClearAll

end Memory

end Custody
