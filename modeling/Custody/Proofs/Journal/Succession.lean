import Custody.Proofs.Journal.Continue

/-!
# One host after another

A host that starts anew forgets all its objects, and nothing that was issued before is live then.
Containers can be left over.  They keep the handles that they had, and the new host gives its first
object the first handle again.  So a handle that is left over is dead until as many objects have
been issued as its number says, and then it is the handle of another object.

- `Journal.Succession`: runs of hosts that start one after another.
- `Container.releaseIn_of_dead`, `Container.releaseIn_of_live`: what the release of a left-over
  container comes to.
- `Journal.handles_are_given_out_again`: how long a handle stays dead.
-/

namespace Custody

open SessionM Memory

/-! ## Releasing what may be dead -/

namespace Container

variable {c : Category} {k : Container c} {m : Memory}

/-- Releasing a handle that names nothing live is counted as a mistake, and that is all. -/
theorem releaseIn_of_dead (hfit : k.Fit) (hduty : k.duty ≠ 0) (hdead : m.isLive k.handle = false) :
    k.releaseIn m = m.count fun c => { c with doubleFrees := c.doubleFrees + 1 } := by
  rcases releaseIn_cases hfit m with ⟨hnone, -⟩ | ⟨-, hfreed | hdisowned⟩
  · exact absurd hnone hduty
  · rw [hfreed, free_of_not_live hdead]
  · rw [hdisowned, disown_of_not_live hdead]

/-- Releasing a handle that names something live is counted as a release. -/
theorem releaseIn_of_live (hfit : k.Fit) (hduty : k.duty ≠ 0) {id : Nat}
    (hhandle : k.handle = .ofId id) (hlive : m.Live id) :
    (k.releaseIn m).releases = m.releases + 1 ∧
      (k.releaseIn m).counters.doubleFrees = m.counters.doubleFrees := by
  rcases releaseIn_cases hfit m with ⟨hnone, -⟩ | ⟨-, hfreed | hdisowned⟩
  · exact absurd hnone hduty
  · rw [hfreed, hhandle, counters_free hlive]
    exact ⟨releases_free hlive, rfl⟩
  · rw [hdisowned, hhandle, counters_disown hlive]
    exact ⟨releases_disown hlive, rfl⟩

/-- What a library owns dies with its container. -/
theorem kills_releaseIn (hhost : k.host = .reference) (howner : k.owner = .library) {id : Nat}
    (hhandle : k.handle = .ofId id) (hlive : m.Live id) :
    m.Kills (m.reach id) (k.releaseIn m) := by
  have hfull : k.isEmpty = false := by
    simp [isEmpty, hhandle, Handle.isNull, Handle.ofId, addressOf]
  have hfreed : k.releaseIn m = m.free (.ofId id) := by
    rw [releaseIn, if_neg (by simp [hfull]), howner, hhost, hhandle]
    rfl
  rw [hfreed]
  exact kills_free hlive

end Container

namespace Journal

variable {u v w : Journal}

/-! ## Hosts that start anew -/

/-- The host starts anew, and the containers are left over. -/
def renewed (w : Journal) (config : Config) : Journal :=
  ⟨w.session.restart .reference config, w.containers, []⟩

/-- Runs of hosts, each of which starts anew with the containers that are left over. -/
inductive Succession : Journal → Journal → Prop where
  | run {u w : Journal} (h : Run ∅ u w) : Succession u w
  | renew {u v w : Journal} (before : Succession u v) (config : Config)
    (later : Run ∅ (v.renewed config) w) : Succession u w

theorem Fit.run {kept : Set Nat} (h : u.Fit) (hrun : Run kept u w) : w.Fit :=
  (hrun.leads h).1

theorem Fit.renewed (h : w.Fit) (config : Config) : (w.renewed config).Fit := ⟨rfl, h.containers⟩

theorem Succession.fit (hosts : Succession u w) (h : u.Fit) : w.Fit := by
  induction hosts with
  | run hrun => exact h.run hrun
  | renew _ config hrun ih => exact (ih.renewed config).run hrun

/-- A host can issue any number of objects, whatever else there is. -/
theorem exists_run_issuing (w : Journal) (n : Nat) :
    ∃ w', Run ∅ w w' ∧ w'.containers = w.containers ∧
      w'.memory.allocations.size = w.memory.allocations.size + n ∧
      ∀ id, w.memory.allocations.size ≤ id → id < w'.memory.allocations.size →
        w'.memory.Live id := by
  induction n with
  | zero => exact ⟨w, .refl w, rfl, rfl, fun id hlow hhigh => absurd hhigh (by omega)⟩
  | succ n ih =>
    obtain ⟨⟨s, cs, ps⟩, hrun, hcontainers, hsize, hlive⟩ := ih
    have hbuilt : s.memory.buildList.2.allocations.size = s.memory.allocations.size + 1 :=
      size_issue s.memory _
    refine ⟨_, hrun.step (.build .list), hcontainers, ?_, fun id hlow hhigh => ?_⟩
    · rw [memory, hbuilt]
      exact congrArg (· + 1) hsize
    -- the list that was built last, or one of the others
    · rw [memory, hbuilt, Nat.lt_succ_iff_lt_or_eq] at hhigh
      refine live_issue.mpr ?_
      exact hhigh.symm.imp_right fun hbefore => hlive id hlow hbefore

/-- **A handle of an earlier host is dead until its number is given out again.**  When a host starts
anew, nothing is live, and the numbers are given out from the first on once more.  While no more
objects have been issued than the number of a handle says, it is dead, and releasing a container
that is left over with it is only counted as a mistake.  But for every handle there is a run after
which it is live, with all containers still there; and from then on releasing such a container
releases the object that the new host has issued under it. -/
theorem handles_are_given_out_again {s : Session} {first config : Config}
    (earlier : Succession (fresh s first) v) (later : Run ∅ (v.renewed config) w) :
    (∀ id, ¬ (v.renewed config).memory.Live id) ∧
    (v.renewed config).memory.Creates (List.range w.memory.allocations.size) w.memory ∧
    (∀ id, w.memory.allocations.size ≤ id → ¬ w.memory.Live id) ∧
    (∀ id, ∃ w', Run ∅ (v.renewed config) w' ∧ w'.containers = v.containers ∧ w'.memory.Live id) ∧
    ∀ k ∈ w.containers, k.2.duty ≠ 0 →
      (w.memory.isLive k.2.handle = false → k.2.releaseIn w.memory =
        w.memory.count fun c => { c with doubleFrees := c.doubleFrees + 1 }) ∧
      ∀ id, k.2.handle = .ofId id → w.memory.Live id →
        (k.2.releaseIn w.memory).releases = w.memory.releases + 1 ∧
        (k.2.releaseIn w.memory).counters.doubleFrees = w.memory.counters.doubleFrees ∧
        (k.2.owner = .library →
          w.memory.Kills (w.memory.reach id) (k.2.releaseIn w.memory)) := by
  have hrenewed : (v.renewed config).Fit := (earlier.fit (fit_fresh s first)).renewed config
  obtain ⟨hfit, hleads⟩ := later.leads hrenewed
  obtain ⟨_, hsteps⟩ := hleads ∅
  refine ⟨fun id hlive => ?_, ?_, fun id hid hlive => ?_, fun id => ?_, fun k hk hduty => ⟨?_, ?_⟩⟩
  · exact absurd hlive.lt_size (Nat.not_lt_zero id)
  · have hcreates := Inventory.Steps.creates hsteps
    rwa [List.range_eq_range']
  · exact absurd hlive.lt_size (not_lt.mpr hid)
  · obtain ⟨w', hrun, hcontainers, hsize, hlive⟩ :=
      exists_run_issuing (v.renewed config) (id + 1)
    exact ⟨w', hrun, hcontainers, hlive id (Nat.zero_le id) (by omega)⟩
  · exact Container.releaseIn_of_dead (hfit.containers k hk) hduty
  · intro id hhandle hlive
    obtain ⟨hreleases, hmistakes⟩ :=
      Container.releaseIn_of_live (hfit.containers k hk) hduty hhandle hlive
    exact ⟨hreleases, hmistakes, fun howner =>
      Container.kills_releaseIn (hfit.containers k hk).host howner hhandle hlive⟩

/-- A host builds a tensor, and the library takes it over.  Then the host starts anew, and the first
thing that it builds is a list, which goes with the container of the tensor. -/
theorem list_of_a_newer_host :
    let left : Container .tensor := ⟨.ofId 0, .library, .reference⟩
    ∃ v w, Succession (fresh {} {}) v ∧ Run ∅ (v.renewed {}) w ∧
      left.any ∈ v.containers ∧ left.any ∈ w.containers ∧
      v.memory.Live 0 ∧ ¬ (v.renewed {}).memory.Live 0 ∧ w.memory.Live 0 ∧
      w.memory.Kills (w.memory.reach 0) (left.releaseIn w.memory) ∧
      (left.releaseIn w.memory).counters.doubleFrees = 0 := by
  intro left
  let built : Session := { (fresh {} {}).session with
    memory := ((fresh {} {}).memory.buildArray .tensor 0 [1] 8 []).2 }
  let renewed : Session := { (built.restart .reference {}) with
    memory := (built.restart .reference {}).memory.buildList.2 }
  have hbuilt : Run ∅ (fresh {} {}) ⟨built, 0, []⟩ :=
    .step (.refl _) (.build (.array .tensor 0 [1] 8 []))
  have htaken : Run ∅ (fresh {} {}) ⟨built, left.any ::ₘ 0, []⟩ :=
    hbuilt.step (.takeOver .tensor (h := .ofId 0) (by simp))
  have hlater : Run ∅ (Journal.renewed ⟨built, left.any ::ₘ 0, []⟩ {})
      ⟨renewed, left.any ::ₘ 0, []⟩ := .step (.refl _) (.build .list)
  have hmember : left.any ∈ (left.any ::ₘ 0 : Multiset AnyContainer) :=
    Multiset.mem_cons_self left.any 0
  obtain ⟨hdead, -, -, -, hleft⟩ := handles_are_given_out_again (.run htaken) hlater
  have hlive : renewed.memory.Live 0 := by decide
  obtain ⟨-, hmistakes, hkills⟩ := (hleft _ hmember (by decide)).2 0 rfl hlive
  exact ⟨_, _, .run htaken, hlater, hmember, hmember, by decide, hdead 0, hlive, hkills rfl,
    hmistakes⟩

end Journal

end Custody
