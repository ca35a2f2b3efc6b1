import Custody.Proofs.Memory.Release

/-!
# Releases in another order

Which release kills an object depends on the order of releases, and so does which of them are
counted as released twice.  What is left in the end does not depend on it (`Memory.giveUpAll_perm`):
after two releases in either order the memories agree on everything but that (`Memory.giveUp_comm`),
and further releases keep them in agreement (`Memory.Agree.giveUp`).
-/

namespace Custody

namespace Memory

/-! ## Agreement -/

/-- All of a memory but its objects and what it has counted: the node table, the symbols and the
armed failures. -/
def surroundings (m : Memory) : Memory := { m with allocations := #[], counters := {} }

/-- Two memories hold the same live objects, each with the same contents and as many shares.  What
they have counted may differ, and the share counts of what is dead. -/
structure Agree (m m' : Memory) : Prop where
  object? : ∀ id, m'.object? id = m.object? id
  shares : ∀ id, m.Live id → m'.shares (.ofId id) = m.shares (.ofId id)
  size : m'.allocations.size = m.allocations.size
  surroundings : m'.surroundings = m.surroundings

namespace Agree

variable {m m' : Memory}

theorem refl (m : Memory) : m.Agree m := ⟨fun _ => rfl, fun _ _ => rfl, rfl, rfl⟩

theorem live_iff (h : m.Agree m') (id : Nat) : m'.Live id ↔ m.Live id := by
  rw [Live, Live, h.object?]

theorem nodes (h : m.Agree m') : m'.nodes = m.nodes := by
  show m'.surroundings.nodes = m.surroundings.nodes
  rw [h.surroundings]

theorem symm (h : m.Agree m') : m'.Agree m where
  object? id := (h.object? id).symm
  shares id hlive := (h.shares id ((h.live_iff id).mp hlive)).symm
  size := h.size.symm
  surroundings := h.surroundings.symm

theorem trans {m'' : Memory} (h : m.Agree m') (h' : m'.Agree m'') : m.Agree m'' where
  object? id := (h'.object? id).trans (h.object? id)
  shares id hlive := (h'.shares id ((h.live_iff id).mpr hlive)).trans (h.shares id hlive)
  size := h'.size.trans h.size
  surroundings := h'.surroundings.trans h.surroundings

end Agree

/-! ## Giving a handle up -/

/-- Give a handle up: as a whole, which frees it, or one share of it. -/
def giveUp (m : Memory) (whole : Bool) (h : Handle) : Memory :=
  if whole then m.free h else m.disown h

/-- What dies when a handle is given up. -/
def lost (m : Memory) (whole : Bool) (h : Handle) : Set Nat :=
  {id | ∃ root, h = .ofId root ∧ (whole = true ∨ m.shares h - 1 ≤ 0) ∧ m.Reaches root id}

/-- How often a handle was given up, whether there was something to release or not. -/
def attempts (m : Memory) : Nat :=
  m.counters.frees + m.counters.disowns + m.counters.doubleFrees

section GiveUp

variable {m m' : Memory} {whole : Bool} {h : Handle} {id : Nat}

private theorem lost_of_last (hlast : whole = true ∨ m.shares (.ofId id) - 1 ≤ 0) :
    m.lost whole (.ofId id) = m.reach id := by
  ext other
  constructor
  · rintro ⟨root, hroot, -, hreach⟩
    rwa [Handle.ofId_injective hroot]
  · exact fun hreach => ⟨id, rfl, hlast, hreach⟩

private theorem lost_of_not_last (hnot : ¬ (whole = true ∨ m.shares (.ofId id) - 1 ≤ 0)) :
    m.lost whole (.ofId id) = ∅ := by
  ext other
  simp only [Set.mem_empty_iff_false, iff_false]
  rintro ⟨root, -, hlast, -⟩
  exact hnot hlast

/-- A handle that names nothing live takes nothing with it. -/
private theorem lost_of_not_live (hdead : m.isLive h = false) : m.lost whole h = ∅ := by
  ext other
  simp only [Set.mem_empty_iff_false, iff_false]
  rintro ⟨root, rfl, -, hreach⟩
  rw [(isLive_ofId m root).mpr hreach.live_root] at hdead
  cases hdead

/-- What giving up a handle does before anything dies: it is counted, and a share may be lost. -/
private structure Lowers (m : Memory) (whole : Bool) (h : Handle) (m' : Memory) : Prop where
  object? : ∀ id, m'.object? id = m.object? id
  shares : ∀ id, m.Live id → m'.shares (.ofId id) =
    if whole = false ∧ h = .ofId id then m.shares (.ofId id) - 1 else m.shares (.ofId id)
  size : m'.allocations.size = m.allocations.size
  surroundings : m'.surroundings = m.surroundings
  attempts : m'.attempts = m.attempts + 1

private theorem lowers_lowered (hlive : m.Live id) :
    m.Lowers false (.ofId id) (m.lowered id) where
  object? other := by simp [lowered]
  shares other _ := by
    rw [lowered, shares_setShares (m := m.count _) hlive]
    simp only [true_and, eq_comm]
    split
    case isTrue hother => rw [hother]
    case isFalse => rfl
  size := by simp [lowered, setShares, count]
  surroundings := by simp [surroundings, lowered, setShares, count]
  attempts := by
    rw [Memory.attempts, counters_lowered]
    exact Nat.add_right_comm _ 1 _

/-- Giving up a handle clears what dies, after it was counted. -/
private theorem giveUp_eq_clearAll (m : Memory) (whole : Bool) (h : Handle) :
    ∃ m', m.Lowers whole h m' ∧ m.giveUp whole h = m'.clearAll (m.lost whole h) := by
  by_cases hlive : m.isLive h = true
  · obtain ⟨id, rfl, hid⟩ := isLive_iff.mp hlive
    cases whole with
    | true =>
      refine ⟨m.count fun c => { c with frees := c.frees + 1 },
        ⟨fun _ => rfl, fun _ _ => rfl, rfl, rfl, ?_⟩, ?_⟩
      · show m.counters.frees + 1 + m.counters.disowns + m.counters.doubleFrees = m.attempts + 1
        rw [attempts]
        omega
      · rw [lost_of_last (.inl rfl)]
        exact free_of_live hid
    | false =>
      refine ⟨m.lowered id, lowers_lowered hid, ?_⟩
      have hdisown := disown_of_live hid
      split at hdisown
      case isTrue hlast =>
        rw [lost_of_last (.inr hlast)]
        exact hdisown
      case isFalse hnot =>
        rw [lost_of_not_last (by simpa using hnot), clearAll_empty]
        exact hdisown
  · rw [Bool.not_eq_true] at hlive
    refine ⟨m.count fun c => { c with doubleFrees := c.doubleFrees + 1 },
      ⟨fun _ => rfl, fun id hid => ?_, rfl, rfl, rfl⟩, ?_⟩
    · rw [if_neg]
      · rfl
      · rintro ⟨-, rfl⟩
        rw [(isLive_ofId m id).mpr hid] at hlive
        cases hlive
    · rw [lost_of_not_live hlive, clearAll_empty]
      cases whole with
      | true => exact free_of_not_live hlive
      | false => exact disown_of_not_live hlive

variable (m : Memory) (whole : Bool) (h : Handle)

theorem object?_giveUp (id : Nat) :
    (m.giveUp whole h).object? id = (m.clearAll (m.lost whole h)).object? id := by
  obtain ⟨m', hlowers, heq⟩ := giveUp_eq_clearAll m whole h
  rw [heq, object?_clearAll, object?_clearAll, hlowers.object?]

theorem live_giveUp_iff (id : Nat) :
    (m.giveUp whole h).Live id ↔ m.Live id ∧ id ∉ m.lost whole h := by
  rw [Live, object?_giveUp, ← Live, live_clearAll]

/-- Of the live objects only one can lose a share. -/
theorem shares_giveUp {id : Nat} (hid : m.Live id) :
    (m.giveUp whole h).shares (.ofId id) =
      if whole = false ∧ h = .ofId id then m.shares (.ofId id) - 1 else m.shares (.ofId id) := by
  obtain ⟨m', hlowers, heq⟩ := giveUp_eq_clearAll m whole h
  rw [heq, shares_clearAll, hlowers.shares id hid]

theorem size_giveUp : (m.giveUp whole h).allocations.size = m.allocations.size := by
  obtain ⟨m', hlowers, heq⟩ := giveUp_eq_clearAll m whole h
  rw [heq, size_clearAll, hlowers.size]

theorem surroundings_giveUp : (m.giveUp whole h).surroundings = m.surroundings := by
  obtain ⟨m', hlowers, heq⟩ := giveUp_eq_clearAll m whole h
  rw [heq]
  exact hlowers.surroundings

/-- Whatever becomes of it, a release is counted once. -/
theorem attempts_giveUp : (m.giveUp whole h).attempts = m.attempts + 1 := by
  obtain ⟨m', hlowers, heq⟩ := giveUp_eq_clearAll m whole h
  rw [heq]
  exact hlowers.attempts

/-- Giving up a handle kills what is lost with it. -/
theorem kills_giveUp : m.Kills (m.lost whole h) (m.giveUp whole h) where
  died id := by
    rw [live_giveUp_iff]
    constructor
    · rintro ⟨hlive, hdied⟩
      exact not_not.mp fun hid => hdied ⟨hlive, hid⟩
    · intro hid
      have hlive : m.Live id := by
        obtain ⟨root, -, -, hreach⟩ := hid
        exact hreach.live
      exact ⟨hlive, fun hkept => hkept.2 hid⟩
  kept id hid := by rw [object?_giveUp, object?_clearAll, if_neg hid]
  elsewhere :=
    calc
      { m.giveUp whole h with allocations := m.allocations, counters := m.counters }
          = { (m.giveUp whole h).surroundings with
              allocations := m.allocations, counters := m.counters } := rfl
      _ = m := by
        rw [surroundings_giveUp]
        rfl

theorem nodes_giveUp : (m.giveUp whole h).nodes = m.nodes := by
  show (m.giveUp whole h).surroundings.nodes = m.surroundings.nodes
  rw [surroundings_giveUp]

theorem closed_lost : m.Closed (m.lost whole h) := by
  rintro a ⟨root, hroot, hlast, hreach⟩ b holds live
  exact ⟨root, hroot, hlast, .step hreach holds live⟩

/-- Paths end where something died. -/
theorem reaches_giveUp_iff {a b : Nat} :
    (m.giveUp whole h).Reaches a b ↔ m.Reaches a b ∧ b ∉ m.lost whole h := by
  rw [Reaches.congr_iff (object?_giveUp m whole h)
    ((nodes_giveUp m whole h).trans (nodes_clearAll m _).symm)]
  exact reaches_clearAll_iff (closed_lost m whole h)

end GiveUp

/-! ## Agreement is kept -/

section Order

variable {m m' : Memory}

theorem Agree.lost_eq (hagree : m.Agree m') (whole : Bool) (h : Handle) :
    m'.lost whole h = m.lost whole h := by
  ext id
  refine exists_congr fun root => and_congr_right fun hroot => ?_
  rw [Reaches.congr_iff hagree.object? hagree.nodes]
  refine and_congr_left fun hreach => or_congr_right ?_
  rw [hroot, hagree.shares root hreach.live_root]

theorem Agree.giveUp (hagree : m.Agree m') (whole : Bool) (h : Handle) :
    (m.giveUp whole h).Agree (m'.giveUp whole h) where
  object? id := by
    rw [object?_giveUp, object?_giveUp, object?_clearAll, object?_clearAll, hagree.lost_eq,
      hagree.object?]
  shares id hlive := by
    have hid : m.Live id := ((live_giveUp_iff m whole h id).mp hlive).1
    rw [shares_giveUp m' whole h ((hagree.live_iff id).mpr hid), shares_giveUp m whole h hid,
      hagree.shares id hid]
  size := by rw [size_giveUp, size_giveUp, hagree.size]
  surroundings := by rw [surroundings_giveUp, surroundings_giveUp, hagree.surroundings]

/-! ## Two releases -/

/-- What dies with two handles, one after the other. -/
private def lostBoth (m : Memory) (whole : Bool) (h : Handle) (whole' : Bool) (h' : Handle) :
    Set Nat :=
  m.lost whole h ∪ (m.giveUp whole h).lost whole' h'

/-- Of two different handles each takes with it what it takes alone, as far as that is left. -/
private theorem lostBoth_of_ne {h h' : Handle} (hne : h ≠ h') (whole whole' : Bool) :
    m.lostBoth whole h whole' h' = m.lost whole h ∪ m.lost whole' h' := by
  have hsecond : (m.giveUp whole h).lost whole' h' = m.lost whole' h' \ m.lost whole h := by
    ext id
    simp only [lost, Set.mem_sdiff, Set.mem_ofPred_eq, reaches_giveUp_iff]
    constructor
    · rintro ⟨root, rfl, hlast, hreach, hid⟩
      rw [shares_giveUp m whole h hreach.live_root, if_neg fun hsame => hne hsame.2] at hlast
      exact ⟨⟨root, rfl, hlast, hreach⟩, hid⟩
    · rintro ⟨⟨root, rfl, hlast, hreach⟩, hid⟩
      refine ⟨root, rfl, ?_, hreach, hid⟩
      rwa [shares_giveUp m whole h hreach.live_root, if_neg fun hsame => hne hsame.2]
  rw [lostBoth, hsecond, Set.union_sdiff_self]

/-- A handle that is given up twice, once as a whole, takes with it what it takes as a whole. -/
private theorem lostBoth_of_whole (h : Handle) {whole whole' : Bool}
    (hwhole : whole = true ∨ whole' = true) : m.lostBoth whole h whole' h = m.lost true h := by
  ext id
  constructor
  · rintro (⟨root, hroot, -, hreach⟩ | ⟨root, hroot, -, hreach⟩)
    · exact ⟨root, hroot, .inl rfl, hreach⟩
    · exact ⟨root, hroot, .inl rfl, ((reaches_giveUp_iff m whole h).mp hreach).1⟩
  · rintro ⟨root, hroot, -, hreach⟩
    by_cases hid : id ∈ m.lost whole h
    · exact .inl hid
    · -- it did not go as a whole the first time, so it does the second time
      have hnot : whole ≠ true := fun h => hid ⟨root, hroot, .inl h, hreach⟩
      exact .inr ⟨root, hroot, .inl (hwhole.resolve_left hnot),
        (reaches_giveUp_iff m whole h).mpr ⟨hreach, hid⟩⟩

private theorem lostBoth_comm (m : Memory) (whole : Bool) (h : Handle) (whole' : Bool)
    (h' : Handle) : m.lostBoth whole h whole' h' = m.lostBoth whole' h' whole h := by
  by_cases hsame : h = h'
  · subst hsame
    by_cases hwhole : whole = whole'
    · rw [hwhole]
    · have hone : whole = true ∨ whole' = true := by
        cases whole <;> cases whole' <;> simp at hwhole ⊢
      rw [lostBoth_of_whole h hone, lostBoth_of_whole h hone.symm]
  · rw [lostBoth_of_ne hsame, lostBoth_of_ne (Ne.symm hsame), Set.union_comm]

/-- **Two releases in either order leave the same.** -/
theorem giveUp_comm (m : Memory) (whole : Bool) (h : Handle) (whole' : Bool) (h' : Handle) :
    ((m.giveUp whole h).giveUp whole' h').Agree ((m.giveUp whole' h').giveUp whole h) := by
  have hboth : ∀ whole h whole' h' id, ((m.giveUp whole h).giveUp whole' h').object? id =
      (m.clearAll (m.lostBoth whole h whole' h')).object? id := by
    intro whole h whole' h' id
    rw [object?_giveUp, lostBoth, ← clearAll_clearAll, object?_clearAll, object?_clearAll,
      object?_giveUp]
  refine ⟨fun id => ?object?, fun id hlive => ?shares, ?size, ?surroundings⟩
  case object? => rw [hboth, hboth, lostBoth_comm]
  case shares =>
    -- what is live in the end was live all the time, in either order
    have hfirst := (live_giveUp_iff (m.giveUp whole h) whole' h' id).mp hlive
    have hid := (live_giveUp_iff m whole h id).mp hfirst.1
    have hlive' : ((m.giveUp whole' h').giveUp whole h).Live id := by
      rw [Live, hboth, lostBoth_comm, ← hboth]
      exact hlive
    have hsecond := (live_giveUp_iff (m.giveUp whole' h') whole h id).mp hlive'
    rw [shares_giveUp _ whole h hsecond.1, shares_giveUp m whole' h' hid.1,
      shares_giveUp _ whole' h' hfirst.1, shares_giveUp m whole h hid.1]
    split_ifs <;> rfl
  case size => rw [size_giveUp, size_giveUp, size_giveUp, size_giveUp]
  case surroundings =>
    rw [surroundings_giveUp, surroundings_giveUp, surroundings_giveUp, surroundings_giveUp]

end Order

/-! ## Any number of releases -/

/-- Give up handles one after another, each as a whole or by one share. -/
def giveUpAll (m : Memory) (releases : List (Bool × Handle)) : Memory :=
  releases.foldl (fun m release => m.giveUp release.1 release.2) m

theorem Agree.giveUpAll {m m' : Memory} (hagree : m.Agree m') (releases : List (Bool × Handle)) :
    (m.giveUpAll releases).Agree (m'.giveUpAll releases) := by
  induction releases generalizing m m' with
  | nil => exact hagree
  | cons release rest ih => exact ih (hagree.giveUp release.1 release.2)

/-- **Releases in any two orders leave the same.** -/
theorem giveUpAll_perm {releases releases' : List (Bool × Handle)}
    (hperm : releases.Perm releases') (m : Memory) :
    (m.giveUpAll releases).Agree (m.giveUpAll releases') := by
  induction hperm generalizing m with
  | nil => exact .refl m
  | cons release _ ih => exact ih (m.giveUp release.1 release.2)
  | swap first second rest =>
    exact (giveUp_comm m second.1 second.2 first.1 first.2).giveUpAll rest
  | trans _ _ ih ih' => exact (ih m).trans (ih' m)

theorem attempts_giveUpAll (m : Memory) (releases : List (Bool × Handle)) :
    (m.giveUpAll releases).attempts = m.attempts + releases.length := by
  induction releases generalizing m with
  | nil => rfl
  | cons release rest ih =>
    rw [List.length_cons, Nat.add_comm rest.length 1, ← Nat.add_assoc, ← attempts_giveUp]
    exact ih _

end Memory

end Custody
