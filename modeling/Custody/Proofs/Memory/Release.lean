import Custody.Proofs.Memory.Reach
import Mathlib.Data.Set.Lattice

/-!
# What a release kills

The descent of a release clears each object before it follows the nodes of the object.  So on any
memory, with lists that hold each other in circles and objects that are held many times over, it
clears exactly the objects that it can reach, and it never runs out of levels
(`Memory.releaseWithin_eq_clearAll`).

From this follows what `free` and `disown` do (`Memory.release_kills_exactly_what_is_reached`).
-/

namespace Custody

namespace Memory

/-! ## The descent -/

/-- Releasing several objects one after another, given what releasing a single one does: an object
that an earlier release has cleared away is dead by then, and reaches nothing. -/
private theorem foldl_releaseWithin {depth : Nat}
    (hrelease : ∀ (m : Memory) (id : Nat), m.liveCount ≤ depth →
      releaseWithin depth m id = m.clearAll (m.reach id))
    (roots : List Nat) (m : Memory) (hdepth : m.liveCount ≤ depth) :
    roots.foldl (releaseWithin depth) m =
      m.clearAll {id | ∃ root ∈ roots, m.Reaches root id} := by
  induction roots generalizing m with
  | nil => simpa using (clearAll_empty m).symm
  | cons root rest ih =>
    -- the induction goes on in the memory that the first release leaves behind
    have hbelow : (m.clearAll (m.reach root)).liveCount ≤ depth :=
      (liveCount_clearAll_le m _).trans hdepth
    rw [List.foldl_cons, hrelease m root hdepth, ih _ hbelow, clearAll_clearAll]
    -- what the others reach there, and what is gone already, is what all of them reach here
    congr 1
    ext id
    simp only [reaches_clearAll_iff (closed_reach m root), Set.mem_union, Set.mem_ofPred_eq,
      mem_reach, List.mem_cons, exists_eq_or_imp]
    by_cases hroot : m.Reaches root id <;> simp [hroot]

/-- An object reaches itself and, without itself, what the objects reach that it holds. -/
private theorem reach_eq_union {m : Memory} {root : Nat} (hlive : m.Live root) :
    m.reach root =
      {root} ∪ {id | ∃ held ∈ m.holdings root, (m.clearAll {root}).Reaches held id} := by
  ext id
  simp only [mem_reach, Set.mem_union, Set.mem_singleton_iff, Set.mem_ofPred_eq]
  constructor
  · intro h
    induction h with
    | root _ => exact .inl rfl
    | @step a b _ holds live ih =>
      -- a path that comes back to the root is begun anew there
      by_cases hb : b = root
      · exact .inl hb
      · right
        have hlive' : (m.clearAll {root}).Live b :=
          (live_clearAll m _).mpr ⟨live, by simpa using hb⟩
        rcases ih with rfl | ⟨held, hheld, hpath⟩
        · exact ⟨b, holds, .root hlive'⟩
        · have ha : a ∉ ({root} : Set Nat) := ((live_clearAll m _).mp hpath.live).2
          exact ⟨held, hheld, .step hpath ((mem_holdings_clearAll m _).mpr ⟨holds, ha⟩) hlive'⟩
  · rintro (rfl | ⟨held, hheld, hpath⟩)
    · exact .root hlive
    · exact .head hheld hpath.of_clearAll

/-- Given as many levels as there are live objects, the descent clears exactly what it can reach. -/
theorem releaseWithin_eq_clearAll (depth : Nat) (m : Memory) (root : Nat)
    (hdepth : m.liveCount ≤ depth) :
    releaseWithin depth m root = m.clearAll (m.reach root) := by
  induction depth generalizing m root with
  | zero =>
    -- no levels are left only if nothing is live
    have hdead : ¬ m.Live root := by
      intro hlive
      have hpos : 0 < m.liveIds.card := Finset.card_pos.mpr ⟨root, mem_liveIds.mpr hlive⟩
      rw [card_liveIds] at hpos
      omega
    rw [reach_of_not_live hdead, clearAll_empty, releaseWithin]
  | succ depth ih =>
    rw [releaseWithin]
    cases hobject : m.object? root with
    | none =>
      have hdead : ¬ m.Live root := by simp [Live, hobject]
      rw [reach_of_not_live hdead, clearAll_empty]
    | some object =>
      have hlive : m.Live root := Live.of_object hobject
      -- the root is cleared before its nodes are followed, so one object fewer is live below
      have hbelow : (m.clearAll {root}).liveCount ≤ depth := by
        have := liveCount_clearAll_lt m {root} (Set.mem_singleton root) hlive
        omega
      simp only [clear_eq_clearAll]
      rw [foldl_releaseWithin ih _ _ hbelow, clearAll_clearAll, reach_eq_union hlive,
        holdings_of_object hobject]

theorem release_eq_clearAll (m : Memory) (root : Nat) :
    m.release root = m.clearAll (m.reach root) :=
  releaseWithin_eq_clearAll _ m root le_rfl

/-! ## Freeing and disowning -/

@[simp] theorem reach_count (m : Memory) (f : Counters → Counters) (root : Nat) :
    (m.count f).reach root = m.reach root :=
  reach_congr (object?_count m f) (nodes_count m f) root

@[simp] theorem reach_setShares (m : Memory) (h : Handle) (shares : Int64) (root : Nat) :
    (m.setShares h shares).reach root = m.reach root :=
  reach_congr (object?_setShares m h shares) (nodes_setShares m h shares) root

theorem free_of_live {m : Memory} {id : Nat} (hlive : m.Live id) :
    m.free (.ofId id) =
      (m.clearAll (m.reach id)).count fun c => { c with frees := c.frees + 1 } := by
  have hobject : (m.object? id).isSome := hlive
  simp only [free, Handle.id?_ofId, hobject, if_true]
  rw [release_eq_clearAll, reach_count]
  rfl

theorem free_of_not_live {m : Memory} {h : Handle} (hdead : m.isLive h = false) :
    m.free h = m.count fun c => { c with doubleFrees := c.doubleFrees + 1 } := by
  unfold free
  cases hid : h.id? with
  | none => rfl
  | some id =>
    have hobject : (m.object? id).isSome = false := (isLive_of_id? hid).symm.trans hdead
    simp [hobject]

/-- The memory after one share of a live object was given up, before anything is released. -/
def lowered (m : Memory) (id : Nat) : Memory :=
  (m.count fun c => { c with disowns := c.disowns + 1 }).setShares (.ofId id)
    (m.shares (.ofId id) - 1)

theorem disown_of_live {m : Memory} {id : Nat} (hlive : m.Live id) :
    m.disown (.ofId id) =
      if m.shares (.ofId id) - 1 ≤ 0 then (m.lowered id).clearAll (m.reach id)
      else m.lowered id := by
  have hobject : (m.object? id).isSome := hlive
  simp only [disown, Handle.id?_ofId, hobject, if_true]
  rw [release_eq_clearAll, reach_setShares, reach_count]
  rfl

theorem disown_of_not_live {m : Memory} {h : Handle} (hdead : m.isLive h = false) :
    m.disown h = m.count fun c => { c with doubleFrees := c.doubleFrees + 1 } := by
  unfold disown
  cases hid : h.id? with
  | none => rfl
  | some id =>
    have hobject : (m.object? id).isSome = false := (isLive_of_id? hid).symm.trans hdead
    simp [hobject]

/-! ## What dies -/

/-- Between two memories exactly the objects of a set died.  Apart from objects and share counts, and
from the counters, the memories are the same. -/
structure Kills (m : Memory) (gone : Set Nat) (m' : Memory) : Prop where
  /-- An object died exactly if it is in the set. -/
  died : ∀ id, m.Live id ∧ ¬ m'.Live id ↔ id ∈ gone
  /-- Outside of the set objects are what they were, live or dead. -/
  kept : ∀ id, id ∉ gone → m'.object? id = m.object? id
  /-- The node table, the symbols and the armed failures are the same. -/
  elsewhere : { m' with allocations := m.allocations, counters := m.counters } = m

theorem Kills.clearAll {m lowered : Memory} {gone : Set Nat} (hgone : ∀ id ∈ gone, m.Live id)
    (hobjects : ∀ id, lowered.object? id = m.object? id)
    (helsewhere : { lowered with allocations := m.allocations, counters := m.counters } = m) :
    m.Kills gone (lowered.clearAll gone) where
  died id := by
    have hlive : lowered.Live id ↔ m.Live id := by rw [Live, Live, hobjects]
    rw [live_clearAll, hlive]
    constructor
    · rintro ⟨live, hdied⟩
      exact not_not.mp fun hid => hdied ⟨live, hid⟩
    · exact fun hid => ⟨hgone id hid, fun h => h.2 hid⟩
  kept id hid := by rw [object?_clearAll, if_neg hid, hobjects]
  elsewhere := helsewhere

namespace Kills

variable {m m' : Memory} {gone : Set Nat}

theorem refl (m : Memory) : m.Kills ∅ m where
  died id := by simp
  kept id _ := rfl
  elsewhere := rfl

theorem live_iff (h : m.Kills gone m') (id : Nat) : m'.Live id ↔ m.Live id ∧ id ∉ gone := by
  constructor
  · intro hlive
    have hid : id ∉ gone := fun hid => ((h.died id).mpr hid).2 hlive
    rw [Live, h.kept id hid] at hlive
    exact ⟨hlive, hid⟩
  · rintro ⟨hlive, hid⟩
    rwa [Live, h.kept id hid]

theorem object?_eq (h : m.Kills gone m') (id : Nat) :
    m'.object? id = (m.clearAll gone).object? id := by
  by_cases hid : id ∈ gone
  · have hdead : ¬ m'.Live id := ((h.died id).mpr hid).2
    rw [Live, Option.not_isSome_iff_eq_none] at hdead
    rw [hdead, object?_clearAll, if_pos hid]
  · rw [h.kept id hid, object?_clearAll, if_neg hid]

theorem nodes_eq (h : m.Kills gone m') : m'.nodes = m.nodes := by
  rw [← h.elsewhere]

theorem trans {m'' : Memory} {more : Set Nat} (h : m.Kills gone m') (h' : m'.Kills more m'') :
    m.Kills (gone ∪ more) m'' where
  died id := by
    rw [h'.live_iff, h.live_iff, Set.mem_union]
    by_cases hgone : id ∈ gone
    · simp [hgone, ((h.died id).mpr hgone).1]
    · have hmore : id ∈ more → m.Live id := fun hid =>
        ((h.live_iff id).mp ((h'.died id).mpr hid).1).1
      by_cases hid : id ∈ more
      · simp [hid, hmore hid]
      · simp [hgone, hid]
  kept id hid := by
    rw [Set.mem_union, not_or] at hid
    rw [h'.kept id hid.2, h.kept id hid.1]
  elsewhere := by rw [← h.elsewhere, ← h'.elsewhere]

/-- A closed set that dies takes no paths with it but those into it. -/
theorem reaches_iff (h : m.Kills gone m') (hclosed : m.Closed gone) {a b : Nat} :
    m'.Reaches a b ↔ m.Reaches a b ∧ b ∉ gone := by
  rw [Reaches.congr_iff h.object?_eq (h.nodes_eq.trans (nodes_clearAll m gone).symm)]
  exact reaches_clearAll_iff hclosed

end Kills

/-- Freeing kills what the object reaches. -/
theorem kills_free {m : Memory} {id : Nat} (hlive : m.Live id) :
    m.Kills (m.reach id) (m.free (.ofId id)) := by
  have hobjects : ∀ other,
      (m.count fun c => { c with frees := c.frees + 1 }).object? other = m.object? other :=
    fun _ => rfl
  rw [free_of_live hlive]
  exact .clearAll (fun _ h => h.live) hobjects rfl

theorem counters_free {m : Memory} {id : Nat} (hlive : m.Live id) :
    (m.free (.ofId id)).counters = { m.counters with frees := m.counters.frees + 1 } := by
  rw [free_of_live hlive]
  rfl

theorem toInt_sub_one {shares : Int64} (h : Int64.minValue < shares) :
    (shares - 1).toInt = shares.toInt - 1 := by
  have hlow : Int64.minValue.toInt < shares.toInt := Int64.lt_iff_toInt_lt.mp h
  have hhigh : shares.toInt < 2 ^ 63 := Int64.toInt_lt shares
  have hmin : Int64.minValue.toInt = -2 ^ 63 := rfl
  have hone : (1 : Int64).toInt = 1 := rfl
  rw [hmin] at hlow
  rw [Int64.toInt_sub, hone]
  -- above the least count, lowering does not wrap around
  apply Int.bmod_eq_of_le
  · omega
  · omega

private theorem elsewhere_lowered (m : Memory) (id : Nat) :
    { m.lowered id with allocations := m.allocations, counters := m.counters } = m := by
  simp [lowered, setShares, count]

@[simp] theorem counters_lowered (m : Memory) (id : Nat) :
    (m.lowered id).counters = { m.counters with disowns := m.counters.disowns + 1 } := by
  simp [lowered, setShares, count]

theorem counters_disown {m : Memory} {id : Nat} (hlive : m.Live id) :
    (m.disown (.ofId id)).counters = { m.counters with disowns := m.counters.disowns + 1 } := by
  rw [disown_of_live hlive]
  split <;> simp

/-- The last share of a live object releases it; any other is only counted. -/
theorem kills_disown {m : Memory} {id : Nat} (hlive : m.Live id)
    (hshares : Int64.minValue < m.shares (.ofId id)) :
    m.Kills (if (m.shares (.ofId id)).toInt - 1 ≤ 0 then m.reach id else ∅)
      (m.disown (.ofId id)) := by
  have hlast : m.shares (.ofId id) - 1 ≤ 0 ↔ (m.shares (.ofId id)).toInt - 1 ≤ 0 := by
    rw [Int64.le_iff_toInt_le, toInt_sub_one hshares, Int64.toInt_zero]
  have hobjects : ∀ other, (m.lowered id).object? other = m.object? other := by simp [lowered]
  simp only [disown_of_live hlive, hlast]
  split
  -- the other changes, to counters and shares, are none that `Kills` sees
  · exact .clearAll (fun _ h => h.live) hobjects (elsewhere_lowered m id)
  · have hnone : m.Kills ∅ ((m.lowered id).clearAll ∅) :=
      .clearAll (by simp) hobjects (elsewhere_lowered m id)
    rwa [clearAll_empty] at hnone

theorem shares_disown {m : Memory} {id : Nat} (hlive : m.Live id) (h : Handle) :
    (m.disown (.ofId id)).shares h =
      if h = .ofId id then m.shares (.ofId id) - 1 else m.shares h := by
  have hlowered : (m.lowered id).shares h =
      if h = .ofId id then m.shares (.ofId id) - 1 else m.shares h := by
    rw [lowered, shares_setShares (m := m.count _) hlive]
    rfl
  rw [disown_of_live hlive]
  split
  · rw [shares_clearAll, hlowered]
  · exact hlowered

/-- **Releasing a handle kills exactly what it reaches.**  Freeing a live object kills it and what it
reaches along paths of live objects, however the lists of the memory hold each other; the descent
needs no more levels than there are live objects, so it ends.  Giving up a share does the same if no
share is left, and otherwise kills nothing.  A handle that is null, misaligned, was never issued or
names a dead object is counted as released twice, and that is all. -/
theorem release_kills_exactly_what_is_reached (m : Memory) :
    (∀ id, m.Live id →
      m.Kills (m.reach id) (m.free (.ofId id)) ∧
      (∀ h, (m.free (.ofId id)).shares h = m.shares h) ∧
      (m.free (.ofId id)).counters = { m.counters with frees := m.counters.frees + 1 } ∧
      ∀ depth, m.liveCount ≤ depth → releaseWithin depth m id = m.release id) ∧
    (∀ h : Handle, h.isNull ∨ h.addr % 16 ≠ 0 ∨ (∃ id, h = .ofId id ∧ ¬ m.Live id) →
      let counted := { m with counters.doubleFrees := m.counters.doubleFrees + 1 }
      m.free h = counted ∧ m.disown h = counted) ∧
    (∀ id, m.Live id → Int64.minValue < m.shares (.ofId id) →
      m.Kills (if (m.shares (.ofId id)).toInt - 1 ≤ 0 then m.reach id else ∅)
        (m.disown (.ofId id)) ∧
      ((m.disown (.ofId id)).shares (.ofId id)).toInt = (m.shares (.ofId id)).toInt - 1 ∧
      (∀ h, h ≠ .ofId id → (m.disown (.ofId id)).shares h = m.shares h) ∧
      (m.disown (.ofId id)).counters =
        { m.counters with disowns := m.counters.disowns + 1 }) := by
  refine ⟨fun id hlive => ⟨?kills, ?shares, ?counters, ?levels⟩, fun h hdead => ?dead,
    fun id hlive hshares => ⟨kills_disown hlive hshares, ?lowered, ?others, ?disowns⟩⟩
  case kills =>
    exact kills_free hlive
  case shares =>
    intro h
    rw [free_of_live hlive]
    exact shares_clearAll m _ h
  case counters => exact counters_free hlive
  case levels =>
    intro depth hdepth
    rw [releaseWithin_eq_clearAll depth m id hdepth, release_eq_clearAll]
  case dead =>
    -- null and misaligned handles are the handle of no number at all
    have hnot : m.isLive h = false := by
      rw [← Bool.not_eq_true, isLive_iff]
      rintro ⟨id, rfl, hlive⟩
      rcases hdead with hnull | haligned | ⟨other, hother, hdead⟩
      · simp [Handle.isNull, Handle.ofId, addressOf] at hnull
      · simp [Handle.ofId, addressOf] at haligned
      · exact hdead (Handle.ofId_injective hother ▸ hlive)
    exact ⟨free_of_not_live hnot, disown_of_not_live hnot⟩
  case lowered =>
    rw [shares_disown hlive, if_pos rfl, toInt_sub_one hshares]
  case others =>
    intro h hne
    rw [shares_disown hlive, if_neg hne]
  case disowns => exact counters_disown hlive

/-- Two lists that hold each other, with an empty list that both of them hold, and a node that
names nothing. -/
def circle : Memory where
  allocations := #[⟨some (.list ⟨[0, 1]⟩), 1⟩, ⟨some (.list ⟨[2, 3, 4]⟩), 0⟩, ⟨some (.list ⟨[]⟩), 0⟩,
    ⟨some (.list ⟨[]⟩), 0⟩]
  nodes := #[⟨0, none, ArgumentKind.dataList.code, .handle (.ofId 1)⟩,
    ⟨0, none, ArgumentKind.dataList.code, .handle (.ofId 2)⟩,
    ⟨1, none, ArgumentKind.dataList.code, .handle (.ofId 0)⟩,
    ⟨1, none, ArgumentKind.dataList.code, .handle (.ofId 2)⟩,
    ⟨1, none, ArgumentKind.image.code, .handle (.ofId 9)⟩]

theorem release_of_circle :
    circle.Live 1 ∧ circle.Kills (circle.reach 1) (circle.free (.ofId 1)) ∧
      (circle.free (.ofId 1)).liveIds = {3} ∧
    circle.Live 0 ∧ Int64.minValue < circle.shares (.ofId 0) ∧
      circle.Kills (circle.reach 0) (circle.disown (.ofId 0)) ∧
      (circle.disown (.ofId 0)).liveIds = {3} ∧
    ¬ circle.Live 9 ∧ (circle.free (.ofId 9)).counters.doubleFrees = 1 := by
  obtain ⟨hfree, hdead, hdisown⟩ := release_kills_exactly_what_is_reached circle
  exact ⟨by decide, (hfree 1 (by decide)).1, by decide, by decide, by decide,
    (hdisown 0 (by decide) (by decide)).1, by decide, by decide, by decide⟩

end Memory

end Custody
