import Custody.Proofs.Estate.Run

/-!
# No leak and no double free

What it means for a run that the accounts are kept.  Nothing is ever released that is not live, and
nothing stays live for which nobody is responsible: whoever drops all containers leaves nothing
behind but what the host holds (`Estate.no_leak_and_no_double_free`).
-/

namespace Custody

open SessionM Memory

namespace Estate

/-! ## Dropping everything -/

/-- Drop containers, one after another. -/
def dropAll : List AnyContainer → SessionM Unit
  | [] => pure ()
  | k :: rest => do
    k.2.drop
    dropAll rest

/-- What the handles reach that containers have the duty to release. -/
def doomed (containers : Multiset AnyContainer) (m : Memory) : Set Nat :=
  {id | ∃ root, Handle.ofId root ∈ duties containers ∧ m.Reaches root id}

theorem doomed_zero (m : Memory) : doomed 0 m = ∅ := by
  ext id
  simp [doomed, duties]

/-- A container that is dropped first takes with it what it reaches, and the others reach the
rest. -/
theorem dies_union_doomed {k : AnyContainer} {containers : Multiset AnyContainer} {m m' : Memory}
    (kills : m.Kills (k.2.dies m) m') :
    k.2.dies m ∪ doomed containers m' = doomed (k ::ₘ containers) m := by
  have hclosed : m.Closed (k.2.dies m) := by
    rintro a ⟨root, hroot, hreach⟩ b holds live
    exact ⟨root, hroot, .step hreach holds live⟩
  ext id
  simp only [doomed, Set.mem_union, Set.mem_ofPred_eq, duties_cons, Multiset.mem_add,
    kills.reaches_iff hclosed]
  constructor
  · rintro (⟨root, hroot, hreach⟩ | ⟨root, hroot, hreach, -⟩)
    · exact ⟨root, .inl hroot, hreach⟩
    · exact ⟨root, .inr hroot, hreach⟩
  · rintro ⟨root, hroot, hreach⟩
    by_cases hid : id ∈ k.2.dies m
    · exact .inl hid
    · rcases hroot with hroot | hroot
      · exact absurd ⟨root, hroot, hreach⟩ hid
      · exact .inr ⟨root, hroot, hreach, hid⟩

/-- Dropping containers one after another never stops, and kills what they are responsible for, by
one release for each of their duties. -/
theorem dropAll_spec (ks : List AnyContainer) {s : Session} {handles : Multiset Handle}
    (hs : s.Sound (duties ks + handles)) (hfit : ∀ k ∈ ks, k.2.Fit) :
    ∃ s', dropAll ks s = .ok () s' ∧ s'.Sound handles ∧
      s.memory.Kills (doomed ks s.memory) s'.memory ∧
      s'.memory.releases = s.memory.releases + (duties ks).card := by
  -- each drop leaves a sound session for the containers that are left, so none of them fails
  induction ks generalizing s with
  | nil =>
    rw [Multiset.coe_nil, doomed_zero]
    refine ⟨s, rfl, ?_, .refl s.memory, rfl⟩
    simpa [duties] using hs
  | cons k rest ih =>
    rw [← Multiset.cons_coe, duties_cons, add_assoc] at hs
    obtain ⟨hreleased, kills, hcount⟩ := hs.releaseIn (hfit k (by simp))
    obtain ⟨s', hdropped, hs', killsRest, hcountRest⟩ :=
      ih hreleased fun other hother => hfit other (by simp [hother])
    refine ⟨s', ?_, hs', ?_, ?_⟩
    · have hdrop : k.2.drop s = .ok () { s with memory := k.2.releaseIn s.memory } := rfl
      rw [dropAll, bind_of_ok hdrop]
      exact hdropped
    · rw [← Multiset.cons_coe, ← dies_union_doomed kills]
      exact kills.trans killsRest
    · rw [hcountRest, hcount, ← Multiset.cons_coe, duties_cons, Multiset.card_add, Nat.add_assoc]

/-! ## Custodians -/

variable {w : Estate}

/-- Each live object has one custodian, and nothing else has any. -/
theorem Sound.count_custodians (hw : w.Sound) (h : Handle) :
    (duties w.containers).count h + w.hostHeld.count h +
        (w.session.memory.held.map Handle.ofId).count h =
      if w.session.memory.isLive h = true then 1 else 0 := by
  obtain ⟨roots, hroots, haccounted⟩ := hw.session.accounted
  have hinjective : Function.Injective Handle.ofId := fun _ _ => Handle.ofId_injective
  have hnodup : (w.session.memory.liveIds.val.map Handle.ofId).Nodup :=
    w.session.memory.liveIds.nodup.map hinjective
  rw [← Multiset.count_add, ← Multiset.count_add, hroots, ← Multiset.map_add, haccounted.ledger]
  -- all custodians together are the live objects, each of them once
  split
  case isTrue hlive =>
    obtain ⟨id, rfl, hid⟩ := isLive_iff.mp hlive
    exact Multiset.count_eq_one_of_mem hnodup
      (Multiset.mem_map_of_mem Handle.ofId (mem_liveIds.mpr hid))
  case isFalse hdead =>
    refine Multiset.count_eq_zero_of_notMem fun hmem => hdead ?_
    obtain ⟨id, hid, rfl⟩ := Multiset.mem_map.mp hmem
    exact isLive_iff.mpr ⟨id, rfl, mem_liveIds.mp hid⟩

/-- What is live is reached either by containers or by the host, and not by both. -/
theorem Sound.live_iff (hw : w.Sound) (id : Nat) :
    (w.session.memory.Live id ∧ id ∉ doomed w.containers w.session.memory) ↔
      ∃ root, .ofId root ∈ w.hostHeld ∧ w.session.memory.Reaches root id := by
  obtain ⟨roots, hroots, haccounted⟩ := hw.session.accounted
  have hroot : ∀ root, Handle.ofId root ∈ duties w.containers + w.hostHeld → root ∈ roots := by
    intro root hmem
    obtain ⟨other, hother, hsame⟩ := Multiset.mem_map.mp (hroots ▸ hmem)
    exact Handle.ofId_injective hsame ▸ hother
  constructor
  · rintro ⟨hlive, hspared⟩
    obtain ⟨root, hmem, hreach⟩ := haccounted.rooted id hlive
    have hall : Handle.ofId root ∈ duties w.containers + w.hostHeld :=
      hroots ▸ Multiset.mem_map_of_mem Handle.ofId hmem
    rcases Multiset.mem_add.mp hall with hduty | hheld
    · exact absurd ⟨root, hduty, hreach⟩ hspared
    · exact ⟨root, hheld, hreach⟩
  · rintro ⟨root, hheld, hreach⟩
    refine ⟨hreach.live, ?_⟩
    rintro ⟨other, hduty, hother⟩
    -- a root that is a duty as well as the host's would be counted twice
    have hsame : other = root := haccounted.root_unique
      (hroot other (Multiset.mem_add.mpr (.inl hduty)))
      (hroot root (Multiset.mem_add.mpr (.inr hheld))) hother hreach
    have hcount := hw.count_custodians (.ofId root)
    rw [if_pos ((isLive_ofId _ root).mpr hreach.live_root)] at hcount
    have hfirst := Multiset.count_pos.mpr (hsame ▸ hduty)
    have hsecond := Multiset.count_pos.mpr hheld
    omega

/-- A fresh host has nothing to account for. -/
theorem sound_fresh (s : Session) (config : Config) : Sound ⟨s.restart .reference config, 0, 0⟩ where
  session := ⟨rfl, 0, rfl, accounted_empty⟩
  fit k hk := by cases hk

/-- **No leak and no double free.**  In every run from a fresh host nothing is released that is not
live, and each live object has exactly one custodian: a container that has the duty to release it, the
hands of the host, or one node of one live list.  Whoever then drops the containers that are left, in
any order, releases each of them once and leaves exactly what the host holds and all that this
reaches, as it was. -/
theorem no_leak_and_no_double_free {s : Session} {config : Config}
    (hrun : Run ⟨s.restart .reference config, 0, 0⟩ w) :
    w.session.memory.counters.doubleFrees = 0 ∧
    (∀ h, (duties w.containers).count h + w.hostHeld.count h +
        (w.session.memory.held.map Handle.ofId).count h =
      if w.session.memory.isLive h = true then 1 else 0) ∧
    ∀ ks : List AnyContainer, ks = w.containers →
      ∃ s', dropAll ks w.session = .ok () s' ∧ s'.memory.counters.doubleFrees = 0 ∧
        s'.memory.releases = w.session.memory.releases + (duties w.containers).card ∧
        ∀ id,
          (s'.memory.Live id ↔
            ∃ root, .ofId root ∈ w.hostHeld ∧ w.session.memory.Reaches root id) ∧
          (s'.memory.Live id → s'.memory.object? id = w.session.memory.object? id) := by
  have hw : w.Sound := hrun.sound (sound_fresh s config)
  obtain ⟨roots, -, haccounted⟩ := hw.session.accounted
  refine ⟨haccounted.clean, hw.count_custodians, fun ks hks => ?_⟩
  have hsession := hw.session
  rw [← hks] at hsession
  obtain ⟨s', hdropped, hs', kills, hcount⟩ := dropAll_spec ks hsession fun k hk =>
    hw.fit k (by rw [← hks]; exact Multiset.mem_coe.mpr hk)
  -- what is left is accounted for by what the host holds, so there are no double releases yet
  obtain ⟨left, -, haccounted'⟩ := hs'.accounted
  refine ⟨s', hdropped, haccounted'.clean, by rw [hcount, hks], fun id => ⟨?_, fun hlive => ?_⟩⟩
  · rw [kills.live_iff, hks]
    exact hw.live_iff id
  · exact kills.kept id ((kills.live_iff id).mp hlive).2

/-- A session on a fresh host. -/
def freshHost : Session := ({} : Session).restart .reference {}

/-- A list of the library. -/
def ownList (id : Nat) : Container .list := ⟨.ofId id, .library, .reference⟩

/-- An array of the library. -/
def ownArray (id : Nat) : Container .numeric := ⟨.ofId id, .library, .reference⟩

/-- A list that holds a list, with an array that is gone and a list that nobody has yet dropped. -/
def nested : Memory where
  allocations := #[⟨some (.list ⟨[0]⟩), 0⟩, ⟨some (.list ⟨[]⟩), 0⟩, ⟨none, 0⟩,
    ⟨some (.list ⟨[]⟩), 0⟩]
  nodes := #[⟨0, none, ArgumentKind.dataList.code, .handle (.ofId 1)⟩]
  counters := { allocations := 3, frees := 1 }

/-- The library makes a list, and appends to it a list that the host has made; an operation on a new
array panics; the list is passed to the host, and one more is made. -/
theorem run_to_nested :
    Run ⟨freshHost, 0, 0⟩
      ⟨{ freshHost with memory := nested }, {(ownList 3).any}, {.ofId 0}⟩ := by
  have hlist : Run ⟨freshHost, 0, 0⟩ ⟨_, {(ownList 0).any}, 0⟩ := .step (.refl _) (.make .newList)
  have hbuilt : Run ⟨freshHost, 0, 0⟩ ⟨_, {(ownList 0).any}, {.ofId 1} + 0⟩ :=
    .step hlist (.build .list)
  have htaken : Run ⟨freshHost, 0, 0⟩ ⟨_, (ownList 1).any ::ₘ {(ownList 0).any}, 0⟩ :=
    .step hbuilt (.takeOver .list _)
  have hpushed := htaken.step
    (.push (k := ownList 0) (Multiset.mem_singleton_self _) rfl (by decide) none)
  have harray : Run ⟨freshHost, 0, 0⟩ ⟨_, (ownArray 2).any ::ₘ {(ownList 0).any}, 0⟩ :=
    .step hpushed (.make (.newArray (c := .numeric) ArrayKind.uint8 [2]))
  have hpanicked := harray.deed rfl .panic
  have hpassed : Run ⟨freshHost, 0, 0⟩ ⟨_, 0, _⟩ := hpanicked.step (.pass (ownList 0) .empty)
  exact hpassed.step (.make .newList)

/-- After that run the list on its own is the only thing that is dropped. -/
theorem custody_in_nested :
    Run ⟨freshHost, 0, 0⟩ ⟨{ freshHost with memory := nested }, {(ownList 3).any}, {.ofId 0}⟩ ∧
      nested.counters.doubleFrees = 0 ∧ nested.liveIds = {0, 1, 3} ∧
      ∃ s', dropAll [(ownList 3).any] { freshHost with memory := nested } = .ok () s' ∧
        s'.memory.counters.doubleFrees = 0 ∧
        s'.memory.Live 0 ∧ s'.memory.Live 1 ∧ ¬ s'.memory.Live 3 := by
  obtain ⟨hclean, -, hdrop⟩ := no_leak_and_no_double_free run_to_nested
  obtain ⟨s', hdropped, hclean', -, hleft⟩ := hdrop [(ownList 3).any] rfl
  have hroot : nested.Reaches 0 0 := .root (by decide)
  refine ⟨run_to_nested, hclean, by decide, s', hdropped, hclean', ?_, ?_, ?_⟩
  · exact (hleft 0).1.mpr ⟨0, Multiset.mem_singleton_self _, hroot⟩
  · exact (hleft 1).1.mpr ⟨0, Multiset.mem_singleton_self _, .step hroot (by decide) (by decide)⟩
  · intro hlive
    obtain ⟨root, hheld, hreach⟩ := (hleft 3).1.mp hlive
    obtain rfl := Handle.ofId_injective (Multiset.mem_singleton.mp hheld)
    have hnobody : ∀ id < nested.allocations.size, 3 ∉ nested.holdings id := by decide
    cases hreach with
    | step path holds _ => exact hnobody _ path.live.lt_size holds

end Estate

end Custody
