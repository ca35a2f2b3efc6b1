import Custody.Proofs.Memory.FailedCopy
import Custody.Proofs.Journal.Nesting

/-!
# Containers that cannot be copied

A library copies what a container holds, or it wraps a handle to share a copy of what the handle
names.  Either can fail, and then nothing may be left behind.  Sharing keeps to that, since lists
are not shared.  Copying a list does not: where something that the list is to hold has died, the
copy stops half way, and the list that was issued for it stays, with what was copied before.  Nobody
has its handle, and no list holds it, so it is never released.
-/

namespace Custody

open SessionM Memory

/-! ## What fails -/

namespace Session

/-- Nothing is different but that a failure may be armed no longer. -/
def Spares (s s' : Session) : Prop :=
  ∃ m, s' = { s with memory := m } ∧ s.memory.Spares m

/-- All is as before, but that the copy of a list is left behind that was not finished. -/
def Forsakes (s s' : Session) : Prop :=
  ∃ m, s' = { s with memory := m } ∧ s.memory.Forsakes m

theorem Spares.refl (s : Session) : s.Spares s := ⟨s.memory, rfl, rfl⟩

end Session

namespace Container

variable {c : Category} {k : Container c} {h : Handle} {s s' : Session} {stop : Stop}

theorem copyHandle_of_some {copied : Handle}
    (hanswer : (s.memory.cloneIf (copiedAs c) h).1 = some copied) :
    copyHandle c .reference h s =
      .ok copied { s with memory := (s.memory.cloneIf (copiedAs c) h).2 } := by
  have hgiven : (Host.reference.clone c h s.memory).1 = some copied := hanswer
  rw [copyHandle, bind_of_ok (onMemory_apply _ s), hgiven]
  rfl

theorem copyHandle_of_none (hanswer : (s.memory.cloneIf (copiedAs c) h).1 = none) :
    copyHandle c .reference h s =
      .error (.failure (.clone c)) { s with memory := (s.memory.cloneIf (copiedAs c) h).2 } := by
  have hrefused : (Host.reference.clone c h s.memory).1 = none := hanswer
  rw [copyHandle, bind_of_ok (onMemory_apply _ s), hrefused]
  rfl

/-- A host has nothing to copy under the null handle. -/
theorem cloneIf_null (m : Memory) (accepts : Object → Bool) :
    (m.cloneIf accepts .null).1 = none := by
  have hnone : Handle.null.id? = none := rfl
  unfold cloneIf
  split
  · rfl
  · rw [hnone]

/-- An empty container is not copied. -/
theorem tryClone_of_empty (hempty : k.isEmpty = true) :
    k.tryClone s = .error (.failure (.nullHandle c)) s := by
  rw [tryClone, require, if_pos hempty]
  rfl

theorem tryClone_of_handle (hhost : k.host = .reference) (hempty : k.isEmpty = false) :
    k.tryClone s =
      ((do return ⟨← copyHandle c .reference k.handle, .library, .reference⟩ :
        SessionM (Container c)) s) := by
  rw [tryClone, require, if_neg (by simp [hempty]), hhost]
  rfl

/-- A container cannot be copied exactly if the host refuses to copy its handle. -/
theorem tryClone_fails_iff (hhost : k.host = .reference) :
    (∃ stop s', k.tryClone s = .error stop s') ↔
      (s.memory.cloneIf (copiedAs c) k.handle).1 = none := by
  cases hempty : k.isEmpty with
  | true =>
    have hnull : k.handle = .null :=
      congrArg Handle.mk (by simpa [isEmpty, Handle.isNull] using hempty)
    rw [hnull]
    exact iff_of_true ⟨_, _, tryClone_of_empty hempty⟩ (cloneIf_null _ _)
  | false =>
    rw [tryClone_of_handle hhost hempty]
    cases hanswer : (s.memory.cloneIf (copiedAs c) k.handle).1 with
    | none => exact iff_of_true ⟨_, _, bind_of_error (copyHandle_of_none hanswer)⟩ rfl
    | some copied =>
      rw [bind_of_ok (copyHandle_of_some hanswer)]
      refine iff_of_false ?_ (by simp)
      rintro ⟨stop, s', hcontra⟩
      cases hcontra

/-! ## What is left -/

/-- The copying of a container is begun if it holds a live list and no failure is armed. -/
theorem undertakes_iff {m : Memory} :
    m.Undertakes (copiedAs c) h ↔
      c = .list ∧ m.failNextClone = false ∧ ∃ l, m.find? h = some (.list l) := by
  constructor
  · rintro ⟨harmed, id, l, rfl, hl, haccepts⟩
    refine ⟨?_, harmed, l, by rw [find?_ofId, hl]⟩
    cases c with
    | list => rfl
    | buffer b => cases b <;> cases haccepts
  · rintro ⟨rfl, harmed, l, hfound⟩
    obtain ⟨id, rfl, hl⟩ := find?_eq_some_iff.mp hfound
    exact ⟨harmed, id, l, rfl, hl, rfl⟩

theorem tryClone_leaves (hhost : k.host = .reference) (hnames : s.memory.NamesOthers)
    (hstop : k.tryClone s = .error stop s') :
    (s.memory.Undertakes (copiedAs c) k.handle → s.Forsakes s') ∧
      (¬ s.memory.Undertakes (copiedAs c) k.handle → s.Spares s') := by
  have hnone := (tryClone_fails_iff hhost).mp ⟨stop, s', hstop⟩
  obtain ⟨hforsakes, hspares⟩ := cloneIf_of_none hnames hnone
  cases hempty : k.isEmpty with
  | true =>
    rw [tryClone_of_empty hempty] at hstop
    obtain ⟨-, rfl⟩ := EStateM.Result.error.inj hstop
    refine ⟨fun hbegun => ?_, fun _ => .refl s⟩
    -- the null handle names no list
    obtain ⟨-, -, l, hfound⟩ := undertakes_iff.mp hbegun
    have hnull : k.isEmpty = false := isNull_of_find? hfound
    rw [hempty] at hnull
    cases hnull
  | false =>
    rw [tryClone_of_handle hhost hempty, bind_of_error (copyHandle_of_none hnone)] at hstop
    obtain ⟨-, rfl⟩ := EStateM.Result.error.inj hstop
    exact ⟨fun hbegun => ⟨_, rfl, hforsakes hbegun⟩, fun hidle => ⟨_, rfl, hspares hidle⟩⟩

/-- A handle that cannot be shared leaves all as it was. -/
theorem wrap_shared_leaves (hs : s.host = some .reference) (hnames : s.memory.NamesOthers)
    (hstop : wrap c h .shared s = .error stop s') : s.Spares s' := by
  rw [wrap, bind_of_ok (installedHost_apply hs), wrapFor, adopt] at hstop
  split at hstop
  case isTrue =>
    obtain ⟨-, rfl⟩ := EStateM.Result.error.inj hstop
    exact .refl s
  case isFalse =>
    cases c with
    | list =>
      obtain ⟨-, rfl⟩ := EStateM.Result.error.inj hstop
      exact .refl s
    | buffer b =>
      have hwrapped : (do
          return (⟨← copyHandle (.buffer b) .reference h, .shared, .reference⟩ :
            Container (.buffer b)) : SessionM (Container (.buffer b))) s = .error stop s' := hstop
      -- a buffer is copied at once, so it is never left half way
      have hidle : ¬ s.memory.Undertakes (copiedAs (.buffer b)) h := by
        rw [undertakes_iff]
        rintro ⟨hlist, -⟩
        cases hlist
      cases hanswer : (s.memory.cloneIf (copiedAs (.buffer b)) h).1 with
      | none =>
        rw [bind_of_error (copyHandle_of_none hanswer)] at hwrapped
        obtain ⟨-, rfl⟩ := EStateM.Result.error.inj hwrapped
        exact ⟨_, rfl, (cloneIf_of_none hnames hanswer).2 hidle⟩
      | some copied =>
        rw [bind_of_ok (copyHandle_of_some hanswer)] at hwrapped
        cases hwrapped

end Container

/-! ## Runs -/

namespace Journal

variable {kept : Set Nat} {w : Journal} {c : Category}

/-- **A copy that fails half way leaves a list behind.**  In a memory without circles, a container
cannot be copied exactly if a failure is armed, or if its handle does not name a live object of its
kind that reaches nothing dead.  All that was there before is then as it was: the objects with their
share counts, the nodes and the counters.  But where a live list was to be copied and no failure was
armed, a new list that nobody holds is left over, and so is what was copied after it.  In all other
cases, and whenever a handle cannot be wrapped to be shared, nothing is left over. -/
theorem failed_copies_forsake_lists {s : Session} {config : Config}
    (hrun : Run kept (fresh s config) w) (hacyclic : ∀ id, ¬ w.memory.Circular id)
    (k : Container c) (hhost : k.host = .reference) :
    ((∃ stop s', k.tryClone w.session = .error stop s') ↔
      w.memory.failNextClone = true ∨ ¬ w.memory.Copyable (copiedAs c) k.handle) ∧
    (∀ stop s', k.tryClone w.session = .error stop s' →
      (c = .list ∧ w.memory.failNextClone = false ∧
          (∃ l, w.memory.find? k.handle = some (.list l)) →
        w.session.Forsakes s') ∧
      (¬ (c = .list ∧ w.memory.failNextClone = false ∧
          ∃ l, w.memory.find? k.handle = some (.list l)) →
        w.session.Spares s')) ∧
    ∀ h stop s', Container.wrap c h .shared w.session = .error stop s' → w.session.Spares s' := by
  obtain ⟨hfit, hrecorded⟩ := hrun.recorded
  have hnames : w.memory.NamesOthers := hrun.nested.names
  refine ⟨?_, fun stop s' hstop => ?_, fun h stop s' hstop => ?_⟩
  · rw [Container.tryClone_fails_iff hhost]
    exact cloneIf_eq_none_iff hrecorded.tabled hnames fun root =>
      acyclic_iff.mpr fun id _ => hacyclic id
  · rw [← Container.undertakes_iff]
    exact Container.tryClone_leaves hhost hnames hstop
  · exact Container.wrap_shared_leaves hfit.host hnames hstop

/-- A library makes a list and a tensor, appends the tensor by its handle, and drops its container.
The list cannot be copied then, and the attempt leaves a second list behind. -/
theorem list_of_a_dropped_tensor :
    ∃ w, Run ∅ (fresh {} {}) w ∧ (∀ id, ¬ w.memory.Circular id) ∧ w.memory.liveCount = 1 ∧
      ∃ s', (⟨.ofId 0, .library, .reference⟩ : Container .list).tryClone w.session =
          .error (.failure (.clone .list)) s' ∧
        w.session.Forsakes s' ∧ s'.memory.liveCount = 2 := by
  let list : Container .list := ⟨.ofId 0, .library, .reference⟩
  let tensor : Container .tensor := ⟨.ofId 1, .library, .reference⟩
  let listed := endState (Container.newList (fresh {} {}).session)
  let filled := endState (Container.newArray .tensor TensorKind.integer [1] listed)
  let item : RawItem := .array (.ofId 1)
  let pushed := list.pushAs none .tensor item filled
  have hlisted : Run ∅ (fresh {} {}) ⟨listed, list.any ::ₘ 0, []⟩ :=
    .step (.refl _) (.make .newList)
  have hfilled : Run ∅ (fresh {} {}) ⟨filled, tensor.any ::ₘ list.any ::ₘ 0, []⟩ :=
    hlisted.step (.make (.newArray (c := .tensor) TensorKind.integer [1]))
  have hpushed : Run ∅ (fresh {} {})
      ⟨endState pushed, tensor.any ::ₘ list.any ::ₘ 0,
        list.posted none (item.stored? .tensor) pushed⟩ :=
    hfilled.step (.pushAs (Multiset.mem_cons_of_mem (Multiset.mem_cons_self list.any 0)) none
      .tensor item)
  have hdropped := hpushed.step (.drop tensor)
  let dropped := endState (tensor.drop (endState pushed))
  have hacyclic : ∀ id, ¬ dropped.memory.Circular id := by
    rintro id ⟨held, hheld, hback⟩
    obtain ⟨_, n, node, -, -, hnode, hnested⟩ := mem_holdings_iff.mp hheld
    -- the only node names the tensor, which is dead
    have hsize : dropped.memory.nodes.size = 1 := by decide
    have hnames : dropped.memory.nodes[0]?.bind nestedIn = some 1 := by decide
    obtain rfl : n = 0 := by
      have := (Array.getElem?_eq_some_iff.mp hnode).1
      omega
    rw [hnode, Option.bind_some, hnested] at hnames
    obtain rfl := Option.some.inj hnames
    exact absurd hback.live_root (by decide)
  have hnone : (dropped.memory.cloneIf (copiedAs .list) list.handle).1 = none := by decide
  have hfails : list.tryClone dropped = .error (.failure (.clone .list))
      { dropped with memory := (dropped.memory.cloneIf (copiedAs .list) list.handle).2 } := by
    rw [Container.tryClone_of_handle rfl rfl, bind_of_error (Container.copyHandle_of_none hnone)]
  obtain ⟨-, hleft, -⟩ := failed_copies_forsake_lists hdropped hacyclic list rfl
  exact ⟨_, hdropped, hacyclic, by decide, _, hfails,
    (hleft _ _ hfails).1 ⟨rfl, by decide, ⟨[0]⟩, by decide⟩, by decide⟩

end Journal

end Custody
