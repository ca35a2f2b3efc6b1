import Custody.Proofs.Journal.Run

/-!
# Handles that the host keeps

A container that wraps a handle for the host releases nothing when it goes, and neither does
anything that is made of it.  So an object that the host keeps outlives every run in which no list
is given it.

A list that is given it releases it together with all that it holds, whoever owned the container in
which it came: appending does not ask for the owner.  This is the only way in which such an object
can die (`Journal.kept_object_dies_only_with_a_list`).
-/

namespace Custody

open SessionM Memory

/-- Releasing the container, which is that of another object, takes an object along. -/
structure Container.Sweeps {c : Category} (k : Container c) (x : Nat) (m : Memory) : Prop where
  owner : k.owner ≠ .host
  root : ∃ root ≠ x, k.handle = .ofId root ∧ m.Reaches root x
  dead : ¬ (k.releaseIn m).Live x

namespace Journal

variable {x : Nat} {m m' : Memory} {cs : Multiset AnyContainer} {posted : List Posting}

/-! ## One operation -/

/-- An object dies only with what a container has the duty to release. -/
theorem Change.live_or_dies (h : Change m cs posted m') (hfit : ∀ k ∈ cs, k.2.Fit)
    (hlive : m.Live x) :
    m'.Live x ∨ ∃ k ∈ cs, x ∈ k.2.dies m ∧ ¬ (k.2.releaseIn m).Live x := by
  cases h with
  | quiet hquiet => exact .inl (hquiet.live hlive (Set.notMem_empty x))
  | post p issued =>
    have hposted : m.Evolves [p.node] ∅ (m.pushNode p.node) := .append .refl p.node issued
    exact .inl (hposted.live hlive (Set.notMem_empty x))
  | @release k hk =>
    by_cases hdead : (k.2.releaseIn m).Live x
    · exact .inl hdead
    · obtain ⟨gone, hgone, hevolves⟩ := evolves_releaseIn (hfit k hk) m
      refine .inr ⟨k, hk, hgone ?_, hdead⟩
      by_contra hspared
      exact hdead (hevolves.live hlive hspared)
  | expand hexpands =>
    refine .inl (hexpands.evolves.live hlive fun hgone => ?_)
    exact absurd (hexpands.new x hgone) (Nat.not_le.mpr hlive.lt_size)

/-- What no list holds, none holds afterwards, unless it was posted. -/
theorem Change.notMem_holdings (h : Change m cs posted m') (hfit : ∀ k ∈ cs, k.2.Fit)
    (hx : x < m.allocations.size) (hheld : ∀ holder, x ∉ m.holdings holder)
    (hposted : ∀ p ∈ posted, p.value.object? ≠ some x) (holder : Nat) :
    x ∉ m'.holdings holder := by
  cases h with
  | quiet hquiet => exact hquiet.notMem_holdings hheld (by simp) holder
  | post p issued =>
    have hevolves : m.Evolves [p.node] ∅ (m.pushNode p.node) := .append .refl p.node issued
    apply hevolves.notMem_holdings hheld
    simpa using hposted
  | release hk =>
    obtain ⟨gone, -, hevolves⟩ := evolves_releaseIn (hfit _ hk) m
    exact hevolves.notMem_holdings hheld (by simp) holder
  | expand hexpands =>
    apply hexpands.evolves.notMem_holdings hheld
    intro node hnode
    -- a copy holds only what is new
    obtain ⟨old, -, hcopy⟩ := hexpands.copied node hnode
    exact hcopy.nestedIn_ne hx

/-! ## Runs -/

/-- What is known of an object that the host keeps, at each moment of a run. -/
structure Kept (x : Nat) (u v : Journal) : Prop where
  issued : x < v.memory.allocations.size
  /-- No container has the duty to release it. -/
  owner : ∀ k ∈ v.containers, k.2.handle = .ofId x → k.2.owner = .host
  /-- It is live, unless a list took it along. -/
  live : v.memory.Live x ∨ ∃ w, Run {x} u w ∧ w.memory.Live x ∧
    ∃ k ∈ w.containers, k.2.Sweeps x w.memory
  /-- While no list is given it, none holds it. -/
  unheld : (∀ holder, x ∉ u.memory.holdings holder) →
    (∀ p ∈ v.postings, p.value.object? ≠ some x) →
    v.memory.Live x ∧ ∀ holder, x ∉ v.memory.holdings holder

/-- A container that takes the object along is that of another one. -/
theorem exists_root_of_dies {k : AnyContainer} (hdies : x ∈ k.2.dies m)
    (howner : k.2.handle = .ofId x → k.2.owner = .host) :
    k.2.owner ≠ .host ∧ ∃ root ≠ x, k.2.handle = .ofId root ∧ m.Reaches root x := by
  obtain ⟨root, hroot, hreach⟩ := hdies
  unfold Container.duty at hroot
  split at hroot
  case isTrue => simp at hroot
  case isFalse hduty =>
    have hhandle := Multiset.mem_singleton.mp hroot
    have howned : k.2.owner ≠ .host := fun hhost => hduty (.inl hhost)
    refine ⟨howned, root, ?_, hhandle.symm, hreach⟩
    rintro rfl
    exact howned (howner hhandle.symm)

/-- What is reached from another object is held by one. -/
theorem exists_holder_of_reaches {root : Nat} (h : m.Reaches root x) (hne : root ≠ x) :
    ∃ holder, x ∈ m.holdings holder := by
  cases h with
  | root => exact absurd rfl hne
  | step _ holds _ => exact ⟨_, holds⟩

theorem Kept.effect {u v w : Journal} (hkept : Kept x u v) (hrun : Run {x} u v) (hv : v.Fit)
    (h : Effect {x} v w) : Kept x u w := by
  obtain ⟨posted, hpostings, hchange⟩ := h.change
  refine ⟨?_, ?_, ?_, ?_⟩
  · obtain ⟨added, gone, hevolves, -, -⟩ := hchange.evolves hv.containers
    exact hkept.issued.trans_le hevolves.size_le
  · intro k hk hhandle
    rcases h.containers k hk with hold | hnew
    · exact hkept.owner k hold hhandle
    · refine hnew.owner.resolve_right fun hlater => ?_
      exact absurd (hlater x rfl hhandle) (Nat.not_le.mpr hkept.issued)
  · rcases hkept.live with hlive | hswept
    · refine (hchange.live_or_dies hv.containers hlive).imp_right ?_
      rintro ⟨k, hk, hdies, hdead⟩
      obtain ⟨howner, hroot⟩ := exists_root_of_dies hdies (hkept.owner k hk)
      exact ⟨v, hrun, hlive, k, hk, howner, hroot, hdead⟩
    · exact .inr hswept
  · intro hheld hnone
    rw [hpostings] at hnone
    obtain ⟨hlive, hunheld⟩ := hkept.unheld hheld fun p hp => hnone p (List.mem_append_left _ hp)
    refine ⟨?_, fun holder => hchange.notMem_holdings hv.containers hkept.issued hunheld
      (fun p hp => hnone p (List.mem_append_right _ hp)) holder⟩
    refine (hchange.live_or_dies hv.containers hlive).resolve_right ?_
    rintro ⟨k, hk, hdies, -⟩
    obtain ⟨-, root, hne, -, hreach⟩ := exists_root_of_dies hdies (hkept.owner k hk)
    obtain ⟨holder, hholds⟩ := exists_holder_of_reaches hreach hne
    exact hunheld holder hholds

end Journal

end Custody
