import Custody.Proofs.Call.Operate
import Custody.Proofs.Container.Values

/-!
# What the policies come to

A handle of the host is wrapped under a policy, and in the end its container is dropped, or handed
back as the result of a call.  Three things make up a policy: what is refused before the host is
asked for anything, what the container then holds, and what dropping it leaves of the memory.

- `Container.wrap_of_list_shared`, `Container.wrap_shared`: what is refused, and what is copied.
- `Ownership.Leaves`: what is left once the owner's container is gone.
- `Container.releaseIn_leaves`: dropping leaves that.
- `Container.wrap_and_release`: the policies, from wrapping to the end.
-/

namespace Custody

open SessionM Memory

theorem Handle.isNull_ofId (id : Nat) : (Handle.ofId id).isNull = false := by
  simp [isNull, ofId, addressOf]

namespace Container

/-! ## Wrapping -/

section Wrap

variable {c : Category} {s : Session} {h : Handle}

/-- What is never shared is refused whatever the handle names, and the host is not asked. -/
theorem wrap_of_not_shareable {host : Host} (hs : s.host = some host) (hnull : h.isNull = false)
    (hshareable : c.shareable = false) :
    wrap c h .shared s = .error (.failure (.notShareable c)) s := by
  rw [wrap, bind_of_ok (installedHost_apply hs), wrapFor_of_not_null hnull,
    if_pos ⟨rfl, hshareable⟩]
  rfl

/-- A live buffer that is shared is copied, and the copy is the only object that is new. -/
theorem wrap_shared {b : BufferCategory} {id : Nat} {object : Object}
    (hs : s.host = some .reference) (hobject : s.memory.object? id = some object)
    (hcategory : object.category = .buffer b) (hidle : s.memory.failNextClone = false) :
    ∃ m, wrap (.buffer b) (.ofId id) .shared s =
        .ok ⟨.ofId s.memory.allocations.size, .shared, .reference⟩ { s with memory := m } ∧
      s.memory.Issued object { s.memory.counters with clones := s.memory.counters.clones + 1 } m :=
  ⟨s.memory.withCopy object, wrap_eq_lend hs hobject hcategory fun _ => hidle,
    issued_issue s.memory object fun c => { c with clones := c.clones + 1 }⟩

/-- However a live object was wrapped, the container holds the handle of a number. -/
theorem handle_of_wrap {id : Nat} {object : Object} (hs : s.host = some .reference)
    (hobject : s.memory.object? id = some object) (hcategory : object.category = c)
    {passing : Passing} {k : Container c} {s' : Session}
    (hwrapped : wrap c (.ofId id) passing s = .ok k s') :
    (∃ held, k = ⟨.ofId held, passing.owner, .reference⟩) ∧
      (passing = .shared → c.shareable = true) := by
  by_cases hshared : passing = .shared
  · subst hshared
    cases c with
    | list =>
      rw [wrap_of_not_shareable hs (Handle.isNull_ofId id) rfl] at hwrapped
      cases hwrapped
    | buffer b =>
      refine ⟨?_, fun _ => rfl⟩
      cases harmed : s.memory.failNextClone with
      | true =>
        rw [wrap_of_armed hs (Handle.isNull_ofId id) harmed] at hwrapped
        cases hwrapped
      | false =>
        obtain ⟨m, hcopied, -⟩ := wrap_shared hs hobject hcategory harmed
        rw [hcopied] at hwrapped
        cases hwrapped
        exact ⟨_, rfl⟩
  · rw [wrap_of_adopt hs (Handle.isNull_ofId id) hshared] at hwrapped
    cases hwrapped
    exact ⟨⟨id, rfl⟩, fun h => absurd h hshared⟩

end Wrap

end Container

/-! ## Dropping -/

/-- What is left of a memory once a container of the live object of a number is gone.  The host's is
left alone.  The library's is freed, with all that is nested in it.  Of a shared one a share is given
up, and it dies with the last. -/
def Ownership.Leaves (owner : Ownership) (id : Nat) (m m' : Memory) : Prop :=
  match owner with
  | .host => m' = m
  | .library =>
    m.Kills (m.reach id) m' ∧ (∀ h, m'.shares h = m.shares h) ∧
      m'.counters = { m.counters with frees := m.counters.frees + 1 }
  | .shared =>
    m.Kills (if (m.shares (.ofId id)).toInt ≤ 1 then {id} else ∅) m' ∧
      (m'.shares (.ofId id)).toInt = (m.shares (.ofId id)).toInt - 1 ∧
      (∀ h, h ≠ .ofId id → m'.shares h = m.shares h) ∧
      m'.counters = { m.counters with disowns := m.counters.disowns + 1 }

namespace Memory

variable {m : Memory} {id : Nat} {object : Object}

theorem leaves_free (hobject : m.object? id = some object) :
    Ownership.library.Leaves id m (m.free (.ofId id)) := by
  have hlive := Live.of_object hobject
  refine ⟨kills_free hlive, fun h => ?_, counters_free hlive⟩
  rw [free_of_live hlive]
  exact shares_clearAll m _ h

theorem leaves_disown (hobject : m.object? id = some object)
    (hbuffer : object.IsBuffer) (hleast : Int64.minValue < m.shares (.ofId id)) :
    Ownership.shared.Leaves id m (m.disown (.ofId id)) := by
  have hlive := Live.of_object hobject
  have hkills := kills_disown hlive hleast
  rw [reach_of_buffer hobject hbuffer] at hkills
  refine ⟨?_, ?_, fun h hother => ?_, counters_disown hlive⟩
  · simpa only [sub_nonpos] using hkills
  · rw [shares_disown hlive, if_pos rfl]
    exact toInt_sub_one hleast
  · rw [shares_disown hlive, if_neg hother]

end Memory

namespace Container

/-- Dropping the container of a live object leaves what its owner says. -/
theorem releaseIn_leaves {c : Category} {owner : Ownership} {m : Memory} {id : Nat}
    {object : Object} (hobject : m.object? id = some object) (hcategory : object.category = c)
    (hshared : owner = .shared →
      c.shareable = true ∧ Int64.minValue < m.shares (.ofId id)) :
    owner.Leaves id m ((⟨.ofId id, owner, .reference⟩ : Container c).releaseIn m) := by
  rw [releaseIn, if_neg (by simp [isEmpty, Handle.isNull_ofId])]
  cases owner with
  | host => rfl
  | library => exact leaves_free hobject
  | shared =>
    obtain ⟨hshareable, hleast⟩ := hshared rfl
    cases c with
    | list => cases hshareable
    | buffer b =>
      exact leaves_disown hobject (Object.isBuffer_of_category hcategory) hleast

/-- What is no longer held is not released. -/
theorem drop_emptied {c : Category} (k : Container c) (s : Session) :
    k.emptied.drop s = .ok () s := rfl

/-! ## The policies -/

/-- **Every policy does what it says, and no more.**  A null handle is refused under all of them, and
a list under the shared one, before the host is asked for anything.  The live object of a number is
taken as it is, without a trace in the session, unless it is shared: then it is copied, or an armed
refusal is used up.  When the container goes, at whatever time later, what is left is what the owner
says: the host's objects are as they were, the library's are freed with all that is nested in them,
and a shared copy loses one share, the last one with its life.  When the container becomes the
result of a call instead, the memory is as it was, the result is the handle, and there is nothing
left to be dropped. -/
theorem wrap_and_release (c : Category) (host : Host) (s : Session) (hs : s.host = some host) :
    (∀ passing, wrap c .null passing s = .error (.failure (.nullHandle c)) s) ∧
    (∀ h : Handle, h.isNull = false → c.shareable = false →
      wrap c h .shared s = .error (.failure (.notShareable c)) s) ∧
    ∀ (id : Nat) (object : Object), host = .reference → s.memory.object? id = some object →
      object.category = c →
      (∀ passing, passing ≠ .shared →
        wrap c (.ofId id) passing s = .ok ⟨.ofId id, passing.owner, .reference⟩ s) ∧
      (c.shareable = true → s.memory.failNextClone = true →
        wrap c (.ofId id) .shared s = .error (.failure (.clone c))
          { s with memory := { s.memory with failNextClone := false } }) ∧
      (c.shareable = true → s.memory.failNextClone = false →
        ∃ m, wrap c (.ofId id) .shared s =
            .ok ⟨.ofId s.memory.allocations.size, .shared, .reference⟩ { s with memory := m } ∧
          s.memory.Issued object
            { s.memory.counters with clones := s.memory.counters.clones + 1 } m) ∧
      ∀ (passing : Passing) (k : Container c) (s' : Session),
        wrap c (.ofId id) passing s = .ok k s' →
        ∃ held, k.handle = .ofId held ∧
          (∀ (later : Session) (kept : Object), later.memory.object? held = some kept →
            kept.category = c →
            (passing = .shared → Int64.minValue < later.memory.shares (.ofId held)) →
            ∃ m, k.drop later = .ok () { later with memory := m } ∧
              passing.owner.Leaves held later.memory m) ∧
          (∀ (later : Session) (slot : ResultSlot),
            CallM.setContainer k ⟨later, slot⟩ =
              .ok () ⟨later, .holds (.handle (.ofId held))⟩) ∧
          ∀ later, k.emptied.drop later = .ok () later := by
  refine ⟨fun passing => wrap_of_null hs, fun h hnull hshareable =>
    wrap_of_not_shareable hs hnull hshareable, fun id object hreference hobject hcategory => ?_⟩
  subst hreference
  refine ⟨fun passing => wrap_of_adopt hs (Handle.isNull_ofId id), fun hshareable harmed => ?armed,
    fun hshareable hidle => ?idle, fun passing k s' hwrapped => ?later⟩
  case armed =>
    cases c with
    | list => cases hshareable
    | buffer b => exact wrap_of_armed hs (Handle.isNull_ofId id) harmed
  case idle =>
    cases c with
    | list => cases hshareable
    | buffer b => exact wrap_shared hs hobject hcategory hidle
  case later =>
    obtain ⟨⟨held, rfl⟩, hshareable⟩ := handle_of_wrap hs hobject hcategory hwrapped
    refine ⟨held, rfl, fun later kept hkept hcategory' hleast => ⟨_, rfl, ?_⟩,
      fun later slot => CallM.setContainer_apply (k := ⟨.ofId held, passing.owner, .reference⟩)
        (Handle.isNull_ofId held) later slot,
      fun later => drop_emptied _ later⟩
    refine releaseIn_leaves hkept hcategory' fun howner => ?_
    have hshared : passing = .shared := by cases passing <;> first | rfl | cases howner
    exact ⟨hshareable hshared, hleast hshared⟩

/-- The shelf, with its host. -/
def shelved : Session where
  host := some .reference
  memory := shelf

/-- The upper list of the shelf is freed with the lower one and the array.  A copy of the array that
has two shares by then loses one of them. -/
theorem wrap_and_release_of_shelf :
    shelved.host = some .reference ∧
      (∃ m, drop (⟨.ofId 2, .library, .reference⟩ : Container .list) shelved =
          .ok () { shelved with memory := m } ∧
        shelf.Kills (shelf.reach 2) m ∧ ¬ m.Live 0 ∧ m.counters.frees = 1) ∧
      ∃ m m', wrap .numeric (.ofId 0) .shared shelved =
          .ok ⟨.ofId 3, .shared, .reference⟩ { shelved with memory := m } ∧
        drop (⟨.ofId 3, .shared, .reference⟩ : Container .numeric)
            { shelved with memory := m.setShares (.ofId 3) 2 } =
          .ok () { shelved with memory := m' } ∧
        m'.Live 3 ∧ (m'.shares (.ofId 3)).toInt = 1 ∧ m'.shares (.ofId 0) = 4 := by
  refine ⟨rfl, ?freed, ?shared⟩
  case freed =>
    obtain ⟨hadopt, -, -, hlater⟩ :=
      (wrap_and_release .list .reference shelved rfl).2.2 2 (.list ⟨[2, 3, 4]⟩) rfl rfl rfl
    obtain ⟨held, hheld, hdrop, -, -⟩ :=
      hlater .automatic _ _ (hadopt .automatic (by decide))
    obtain rfl := Handle.ofId_injective hheld
    obtain ⟨m, hdropped, hkills, -, hcounters⟩ := hdrop shelved _ rfl rfl (by decide)
    have hlower : shelf.Reaches 2 1 := .step (.root (by decide)) (by decide) (by decide)
    have hreach : shelf.Reaches 2 0 := .step hlower (by decide) (by decide)
    exact ⟨m, hdropped, hkills, ((hkills.died 0).mpr hreach).2, by rw [hcounters]; rfl⟩
  case shared =>
    obtain ⟨-, -, hcopy, hlater⟩ :=
      (wrap_and_release .numeric .reference shelved rfl).2.2 0 _ rfl rfl rfl
    obtain ⟨m, hwrapped, hissued⟩ := hcopy rfl rfl
    obtain ⟨held, hheld, hdrop, -, -⟩ := hlater .shared _ _ hwrapped
    obtain rfl := Handle.ofId_injective hheld
    have hlive : m.Live 3 := Live.of_object hissued.live
    have htwo : (m.setShares (.ofId 3) 2).shares (.ofId 3) = 2 := by
      rw [shares_setShares hlive, if_pos rfl]
    have hshared : (m.setShares (.ofId 3) 2).object? 3 = some _ :=
      (object?_setShares m _ _ 3).trans hissued.live
    obtain ⟨m', hdropped, hkills, hlowered, hothers, -⟩ :=
      hdrop { shelved with memory := m.setShares (.ofId 3) 2 } _ hshared rfl
        fun _ => (congrArg (Int64.minValue < ·) htwo).mpr (by decide)
    have hkept : 3 ∉ (if ((m.setShares (.ofId 3) 2).shares (.ofId 3)).toInt ≤ 1 then {3} else ∅ :
        Set Nat) := by
      rw [htwo, if_neg (by decide)]
      exact Set.notMem_empty 3
    refine ⟨m, m', hwrapped, hdropped, ?_, ?_, ?_⟩
    · exact (hkills.live_iff 3).mpr ⟨Live.of_object hshared, hkept⟩
    · exact hlowered.trans (congrArg (fun n : Int64 => n.toInt - 1) htwo)
    · -- the shares of the array itself are neither copied nor given up
      refine (hothers (.ofId 0) (by decide)).trans ?_
      rw [shares_setShares hlive, if_neg (by decide), shares_ofId, hissued.others 0 (by decide)]
      rfl

end Container

end Custody
