import Custody.Proofs.Host.Reference
import Custody.Container.Dispatch
import Custody.DataList.Append

/-!
# The duties of containers

A container that owns its handle has the duty to release it, or to see that somebody else takes it
over.  A session is sound for a collection of handles if its memory is accounted for by them: the
duties of the containers at hand, and what the host has in its own hands.

Each action on containers is described by the handles before it and after it.  Where an action
fails, what it took is released and what it was about to make is not there.
-/

namespace Custody

open SessionM Memory

/-! ## Duties -/

/-- The handle that a container has to release in the end, if there is one. -/
def Container.duty {c : Category} (k : Container c) : Multiset Handle :=
  if k.owner = .host ∨ k.isEmpty then 0 else {k.handle}

/-- A container of the reference host that shares nothing that is never shared. -/
structure Container.Fit {c : Category} (k : Container c) : Prop where
  host : k.host = .reference
  shareable : k.owner = .shared → c.shareable = true

/-- A session on the reference host whose memory is accounted for by these handles. -/
structure Session.Sound (s : Session) (handles : Multiset Handle) : Prop where
  host : s.host = some .reference
  accounted : ∃ roots : Multiset Nat,
    handles = roots.map Handle.ofId ∧ s.memory.Accounted roots

namespace Session.Sound

variable {s : Session} {handles : Multiset Handle}

/-- One of the handles names a root, and the others name the other roots. -/
theorem exists_root {h : Handle} (hs : s.Sound ({h} + handles)) :
    ∃ root roots, h = .ofId root ∧ handles = roots.map Handle.ofId ∧
      s.memory.Accounted (root ::ₘ roots) := by
  obtain ⟨all, hall, haccounted⟩ := hs.accounted
  obtain ⟨root, hroot, rfl, hrest⟩ := (Multiset.map_eq_cons _ _ _ _).mpr hall.symm
  exact ⟨root, all.erase root, rfl, hrest.symm, by rwa [Multiset.cons_erase hroot]⟩

/-- A change of the memory that does not move the accounts. -/
theorem change (hs : s.Sound handles) {m : Memory}
    (hm : ∀ roots, s.memory.Accounted roots → m.Accounted roots) :
    { s with memory := m }.Sound handles := by
  obtain ⟨roots, hroots, haccounted⟩ := hs.accounted
  exact ⟨hs.host, roots, hroots, hm roots haccounted⟩

end Session.Sound

/-! ## Dropping -/

section Drop

variable {c : Category} {k : Container c} {s : Session} {handles : Multiset Handle}

theorem Container.duty_eq_zero (h : k.owner = .host ∨ k.isEmpty = true) : k.duty = 0 := if_pos h

theorem Container.duty_eq_singleton (howner : k.owner ≠ .host) (hempty : k.isEmpty = false) :
    k.duty = {k.handle} := if_neg (by simp [howner, hempty])

theorem Container.duty_ofId {owner : Ownership} (howner : owner ≠ .host) (id : Nat) (host : Host) :
    (⟨.ofId id, owner, host⟩ : Container c).duty = {.ofId id} :=
  duty_eq_singleton howner (by simp [isEmpty, Handle.isNull, Handle.ofId, addressOf])

/-- How often a live object was released, in either way. -/
def Memory.releases (m : Memory) : Nat := m.counters.frees + m.counters.disowns

theorem Memory.releases_free {m : Memory} {id : Nat} (hlive : m.Live id) :
    (m.free (.ofId id)).releases = m.releases + 1 := by
  rw [releases, releases, counters_free hlive]
  exact Nat.add_right_comm _ 1 _

theorem Memory.releases_disown {m : Memory} {id : Nat} (hlive : m.Live id) :
    (m.disown (.ofId id)).releases = m.releases + 1 := by
  rw [releases, releases, counters_disown hlive]
  rfl

/-- What dies with a container. -/
def Container.dies (k : Container c) (m : Memory) : Set Nat :=
  {id | ∃ root, Handle.ofId root ∈ k.duty ∧ m.Reaches root id}

theorem Container.dies_of_no_duty (h : k.duty = 0) (m : Memory) : k.dies m = ∅ := by
  ext id
  simp [dies, h]

theorem Container.dies_of_duty {root : Nat} (h : k.duty = {.ofId root}) (m : Memory) :
    k.dies m = m.reach root := by
  ext id
  simp only [dies, h, Multiset.mem_singleton, Set.mem_ofPred_eq, mem_reach]
  constructor
  · rintro ⟨other, hother, hreach⟩
    exact Handle.ofId_injective hother ▸ hreach
  · exact fun hreach => ⟨root, rfl, hreach⟩

/-- What a release does to the memory: nothing, free the handle, or give up a share of it. -/
theorem Container.releaseIn_cases (hfit : k.Fit) (m : Memory) :
    (k.duty = 0 ∧ k.releaseIn m = m) ∨
      k.duty = {k.handle} ∧
        (k.releaseIn m = m.free k.handle ∨ k.releaseIn m = m.disown k.handle) := by
  by_cases hempty : k.isEmpty = true
  · exact .inl ⟨duty_eq_zero (.inr hempty), if_pos hempty⟩
  · have hfull : k.isEmpty = false := by simpa using hempty
    unfold releaseIn
    rw [if_neg hempty]
    -- what is done with the handle follows from the owner
    cases howner : k.owner with
    | host => exact .inl ⟨duty_eq_zero (.inl howner), rfl⟩
    | library =>
      refine .inr ⟨duty_eq_singleton (by simp [howner]) hfull, .inl ?_⟩
      rw [hfit.host]
      rfl
    | shared =>
      refine .inr ⟨duty_eq_singleton (by simp [howner]) hfull, .inr ?_⟩
      -- only buffers are shared, so there is a share to give up
      have hshareable := hfit.shareable howner
      cases c with
      | list => cases hshareable
      | buffer b =>
        show k.host.disown b k.handle m = m.disown k.handle
        rw [hfit.host]
        rfl

/-- Releasing a container takes its duty from the accounts, and kills what it had the duty to
release, which it releases once. -/
theorem Session.Sound.releaseIn (hs : s.Sound (k.duty + handles)) (hfit : k.Fit) :
    { s with memory := k.releaseIn s.memory }.Sound handles ∧
      s.memory.Kills (k.dies s.memory) (k.releaseIn s.memory) ∧
      (k.releaseIn s.memory).releases = s.memory.releases + k.duty.card := by
  rcases Container.releaseIn_cases hfit s.memory with ⟨hduty, hsame⟩ | ⟨hduty, hreleased⟩
  · rw [hduty, zero_add] at hs
    rw [Container.dies_of_no_duty hduty, hsame, hduty]
    exact ⟨hs, .refl s.memory, rfl⟩
  · rw [hduty] at hs
    obtain ⟨root, roots, hhandle, hroots, haccounted⟩ := hs.exists_root
    have hlive := haccounted.live_of_root (Multiset.mem_cons_self root roots)
    rw [hhandle] at hduty hreleased
    rw [Container.dies_of_duty hduty, hduty, Multiset.card_singleton]
    rcases hreleased with hfreed | hdisowned
    · rw [hfreed]
      exact ⟨⟨hs.host, roots, hroots, haccounted.free⟩, kills_free hlive, releases_free hlive⟩
    · rw [hdisowned]
      exact ⟨⟨hs.host, roots, hroots, haccounted.disown⟩, haccounted.kills_disown,
        releases_disown hlive⟩

theorem Container.ends_drop (hs : s.Sound (k.duty + handles)) (hfit : k.Fit) :
    Ends k.drop s (fun _ s' => s'.Sound handles) fun s' => s'.Sound handles :=
  .of_ok rfl (hs.releaseIn hfit).1

end Drop

end Custody
