import Custody.Call.Arguments
import Custody.Workbench.Deed
import Custody.Proofs.Container.Shape

/-!
# Operating on an argument

An operation on an argument wraps the argument twice: once to look at the kind of its elements, and
once under the policy.  What stands in the way of the operation is noticed before anything is taken
from the host, so the argument is left alone (`Arguments.Obstacle`).  Where nothing is in the way,
the operation is run once, on the argument itself or on a copy of it (`Session.lend`), and what it
leaves behind is settled by the policy (`Passing.Settles`).

The operations are all that overwrite elements of the buffer they are given and then drop it,
however they end (`Spends`).
-/

namespace Custody

open SessionM Memory

/-! ## Overwriting elements -/

namespace Memory

/-- A buffer whose storage is replaced by itself is not changed. -/
theorem setStorage_self {m : Memory} {id : Nat} {object : Object} {storage : Storage}
    (hobject : m.object? id = some object) (hstorage : object.storage? = some storage) :
    m.setStorage (.ofId id) storage = m := by
  have hsame : object.setStorage storage = object := by
    cases object with
    | array a => obtain rfl := Option.some.inj hstorage; rfl
    | image i => obtain rfl := Option.some.inj hstorage; rfl
    | list l => cases hstorage
  obtain ⟨shares, hplace⟩ := object?_eq_some_iff.mp hobject
  have hallocations : (m.setStorage (.ofId id) storage).allocations = m.allocations := by
    apply Array.ext_getElem?
    intro other
    simp only [setStorage, Handle.id?_ofId, getElem?_modifyObject]
    split
    case isTrue hid =>
      subst hid
      simp [hplace, hsame]
    case isFalse => rfl
  calc m.setStorage (.ofId id) storage
      = { m with allocations := (m.setStorage (.ofId id) storage).allocations } := by
        simp [setStorage, modifyObject]
    _ = m := by rw [hallocations]

/-- Of storage that is replaced twice the last one stays. -/
theorem setStorage_setStorage (m : Memory) (h : Handle) (first last : Storage) :
    (m.setStorage h first).setStorage h last = m.setStorage h last := by
  have hobject (object : Object) :
      (object.setStorage first).setStorage last = object.setStorage last := by
    cases object <;> rfl
  unfold setStorage
  cases h.id? with
  | none => rfl
  | some id =>
    have hallocations :
        ((m.modifyObject id (.setStorage first)).modifyObject id (.setStorage last)).allocations =
          (m.modifyObject id (.setStorage last)).allocations := by
      apply Array.ext_getElem?
      intro other
      simp only [getElem?_modifyObject]
      split
      · cases m.allocations[other]? <;> simp [Function.comp_def, hobject]
      · rfl
    exact congrArg (fun allocations => { m with allocations }) hallocations

end Memory

namespace Buffer

variable {b : BufferCategory} {kind : b.Kind}

/-- Overwrite elements several times. -/
def overwrite (t : Buffer kind) (writes : List (Nat × List kind.element.Word)) (m : Memory) :
    Memory :=
  writes.foldl (fun m write => t.writeIn write.1 write.2 m) m

/-- Overwriting the elements of a live buffer replaces its storage by one of the same size. -/
theorem overwrite_of_live {t : Buffer kind} {m : Memory} {id : Nat} {object : Object}
    {storage : Storage} (hhandle : t.container.handle = .ofId id)
    (hhost : t.container.host = .reference) (hobject : m.object? id = some object)
    (hcategory : object.category = .buffer b) (hstorage : object.storage? = some storage)
    (writes : List (Nat × List kind.element.Word)) :
    ∃ storage', storage'.size = storage.size ∧
      t.overwrite writes m = m.setStorage (.ofId id) storage' := by
  induction writes generalizing m object storage with
  | nil => exact ⟨storage, rfl, (setStorage_self hobject hstorage).symm⟩
  | cons write rest ih =>
    have hfound : m.find? (.ofId id) = some object := (find?_ofId m id).trans hobject
    let written := storage.writeFrom kind.element.size write.1 write.2
    have hwritten : t.writeIn write.1 write.2 m = m.setStorage (.ofId id) written := by
      have hshown : t.container.storage? m = some storage :=
        (Container.storage?_of_live hhost (hhandle.symm ▸ hfound) hcategory).trans hstorage
      rw [Buffer.writeIn, hshown, hhandle, hhost]
      exact setStorage_of_live hfound hcategory written
    -- the object is the same but for its elements, so the other writes go on from there
    have hobject' := object?_setStorage_self hobject written
    have hcategory' : (object.setStorage written).category = .buffer b := by
      rw [← hcategory]
      cases object <;> rfl
    have hstorage' : (object.setStorage written).storage? = some written := by
      cases object with
      | list l => cases hstorage
      | array a => rfl
      | image i => rfl
    obtain ⟨storage', hsize, hrest⟩ := ih hobject' hcategory' hstorage'
    refine ⟨storage', hsize.trans (Storage.size_writeFrom ..), ?_⟩
    calc t.overwrite (write :: rest) m
        = t.overwrite rest (m.setStorage (.ofId id) written) := by
          rw [overwrite, List.foldl_cons, hwritten]; rfl
      _ = m.setStorage (.ofId id) storage' := by rw [hrest, setStorage_setStorage]

end Buffer

/-- However the operation ends, it has overwritten elements of the buffer it was given, any number
of times, and has dropped it. -/
def Spends {b : BufferCategory} {α : Type}
    (operation : (kind : b.Kind) → Buffer kind → SessionM α) : Prop :=
  ∀ (kind : b.Kind) (t : Buffer kind) (s : Session), ∃ writes,
    endState (operation kind t s) =
      { s with memory := t.container.releaseIn (t.overwrite writes s.memory) }

/-- All deeds are such operations, but for the one that keeps the container. -/
theorem Deed.spends {b : BufferCategory} {deed : Deed} (h : deed ≠ .keep) :
    Spends (b := b) deed.perform := by
  intro kind t s
  cases deed with
  | keep => exact absurd rfl h
  | inspect | fail _ | panic => exact ⟨[], rfl⟩
  | reverse => exact ⟨[(0, (t.data s.memory).reverse)], rfl⟩
  | clear => exact ⟨[(0, (t.data s.memory).map fun _ => kind.element.zero)], rfl⟩

/-! ## The argument at an index -/

namespace BufferCategory

/-- The code that the host tells of a handle that names nothing. -/
def absentCode : BufferCategory → Int
  | array _ => 0
  | image => -1

theorem kindOfCode?_absentCode : (b : BufferCategory) → b.kindOfCode? b.absentCode = none
  | .tensor | .numeric | .image => rfl

end BufferCategory

namespace Arguments

variable {args : Arguments} {b : BufferCategory} {index : Nat} {passing : Passing} {s : Session}
  {h : Handle}

/-- The handle that is read from the argument at an index. -/
def handle? (args : Arguments) (index : Nat) : Option Handle :=
  (args.payloads[index]?).map (·.asHandle)

theorem payload_of_count_le (hindex : args.count ≤ index) :
    args.payload index = .error (.argumentIndex index args.count) := by
  rw [payload, List.getElem?_eq_none_iff.mpr hindex]

theorem container_of_handle? (hh : args.handle? index = some h) (c : Category)
    (passing : Passing) (s : Session) :
    args.container c index passing s = Container.wrap c h passing s := by
  obtain ⟨p, hp, rfl⟩ := Option.map_eq_some_iff.mp hh
  rw [container, payload, hp]
  rfl

end Arguments

/-! ## Wrapping -/

namespace Container

variable {c : Category} {h : Handle} {passing : Passing} {s : Session} {host : Host}

theorem wrap_of_no_host (hs : s.host = none) :
    wrap c h passing s = .error (.failure .hostNotInstalled) s := by
  have hstate : (get : SessionM Session) s = .ok s s := rfl
  have hinstalled : installedHost s = .error (.failure .hostNotInstalled) s := by
    rw [installedHost, bind_of_ok hstate, hs]
    rfl
  exact bind_of_error hinstalled

theorem wrap_of_null (hs : s.host = some host) :
    wrap c .null passing s = .error (.failure (.nullHandle c)) s := by
  rw [wrap, bind_of_ok (installedHost_apply hs)]
  rfl

theorem wrapFor_of_not_null (hnull : h.isNull = false) :
    wrapFor c host h passing s = (if passing = .shared ∧ c.shareable = false then
        fail (.notShareable c)
      else match passing.acquire with
        | .adopt => pure ⟨h, passing.owner, host⟩
        | .clone => do
          return { (⟨h, passing.owner, host⟩ : Container c) with
            handle := ← copyHandle c host h }) s := by
  rw [wrapFor, adopt, hnull]
  rfl

/-- Unless it is shared, a handle is taken as it is. -/
theorem wrap_of_adopt (hs : s.host = some host) (hnull : h.isNull = false)
    (hpassing : passing ≠ .shared) :
    wrap c h passing s = .ok ⟨h, passing.owner, host⟩ s := by
  rw [wrap, bind_of_ok (installedHost_apply hs), wrapFor_of_not_null hnull,
    if_neg fun hshared => hpassing hshared.1]
  cases passing with
  | shared => exact absurd rfl hpassing
  | automatic | manual | constant => rfl

/-- A buffer that is shared is copied. -/
theorem wrap_of_shared {b : BufferCategory} (hs : s.host = some host) (hnull : h.isNull = false) :
    wrap (.buffer b) h .shared s = (do
      let copied ← copyHandle (.buffer b) host h
      return (⟨copied, .shared, host⟩ : Container (.buffer b))) s := by
  rw [wrap, bind_of_ok (installedHost_apply hs), wrapFor_of_not_null hnull,
    if_neg fun hshareable => by cases hshareable.2]
  rfl

end Container

/-- A buffer of the reference host is released as its owner says. -/
theorem Container.releaseIn_ofId {b : BufferCategory} (id : Nat) (owner : Ownership) (m : Memory) :
    (⟨.ofId id, owner, .reference⟩ : Container (.buffer b)).releaseIn m =
      match owner.release with
      | .free => m.free (.ofId id)
      | .disown => m.disown (.ofId id)
      | .keep => m := by
  rw [releaseIn, if_neg (by simp [isEmpty, Handle.isNull, Handle.ofId, addressOf])]
  cases owner <;> rfl

/-! ## What is lent to an operation -/

namespace Memory

/-- The memory with a copy of a buffer, which is counted. -/
def withCopy (m : Memory) (object : Object) : Memory :=
  (m.issue object).2.count fun c => { c with clones := c.clones + 1 }

theorem object?_withCopy (m : Memory) (object : Object) :
    (m.withCopy object).object? m.allocations.size = some object :=
  object?_issue_self m object

theorem cloneIf_of_buffer {m : Memory} {b : BufferCategory} {id : Nat} {object : Object}
    (harmed : m.failNextClone = false) (hobject : m.object? id = some object)
    (hcategory : object.category = .buffer b) :
    Host.reference.clone (.buffer b) (.ofId id) m =
      (some (.ofId m.allocations.size), m.withCopy object) := by
  have hbuffer : object.IsBuffer := Object.isBuffer_of_category hcategory
  have haccepts : copiedAs (.buffer b) object = true := by
    obtain ⟨a, rfl, rfl⟩ | ⟨i, rfl, rfl⟩ := Object.buffer_cases hcategory <;> rfl
  show m.cloneIf (copiedAs (.buffer b)) (.ofId id) = _
  rw [cloneIf_of_object harmed hobject haccepts, copy_of_buffer hobject hbuffer]
  rfl

end Memory

/-- The container that an operation is given under a policy, and the session in which it starts: the
argument itself, or a copy of it. -/
def Session.lend (s : Session) (b : BufferCategory) (id : Nat) (object : Object)
    (passing : Passing) : Container (.buffer b) × Session :=
  match passing.acquire with
  | .adopt => (⟨.ofId id, passing.owner, .reference⟩, s)
  | .clone => (⟨.ofId s.memory.allocations.size, passing.owner, .reference⟩,
      { s with memory := s.memory.withCopy object })

section Lend

variable {s : Session} {b : BufferCategory} {id : Nat} {object : Object} {passing : Passing}

theorem Container.wrap_eq_lend (hs : s.host = some .reference)
    (hobject : s.memory.object? id = some object)
    (hcategory : object.category = .buffer b)
    (harmed : passing = .shared → s.memory.failNextClone = false) :
    Container.wrap (.buffer b) (.ofId id) passing s =
      .ok (s.lend b id object passing).1 (s.lend b id object passing).2 := by
  have hnull : (Handle.ofId id).isNull = false := by
    simp [Handle.isNull, Handle.ofId, addressOf]
  by_cases hshared : passing = .shared
  · subst hshared
    have hcopied : Container.copyHandle (.buffer b) .reference (.ofId id) s =
        .ok (.ofId s.memory.allocations.size)
          { s with memory := s.memory.withCopy object } := by
      rw [Container.copyHandle, bind_of_ok (onMemory_apply _ _),
        cloneIf_of_buffer (harmed rfl) hobject hcategory]
      rfl
    rw [Container.wrap_of_shared hs hnull, bind_of_ok hcopied]
    rfl
  · rw [Container.wrap_of_adopt hs hnull hshared]
    cases passing with
    | shared => exact absurd rfl hshared
    | automatic | manual | constant => rfl

theorem Container.wrap_of_armed (hs : s.host = some .reference) {h : Handle}
    (hnull : h.isNull = false) (harmed : s.memory.failNextClone = true) :
    Container.wrap (.buffer b) h .shared s =
      .error (.failure (.clone (.buffer b)))
        { s with memory := { s.memory with failNextClone := false } } := by
  have hrefused : Container.copyHandle (.buffer b) .reference h s =
      .error (.failure (.clone (.buffer b)))
        { s with memory := { s.memory with failNextClone := false } } := by
    have hclone : Host.reference.clone (.buffer b) h s.memory =
        (none, { s.memory with failNextClone := false }) := by
      show s.memory.cloneIf _ h = _
      rw [cloneIf, if_pos harmed]
    rw [Container.copyHandle, bind_of_ok (onMemory_apply _ _), hclone]
    rfl
  rw [Container.wrap_of_shared hs hnull, bind_of_error hrefused]

/-- What is lent is live and is the argument, or a copy of it. -/
theorem Session.lend_carries (hobject : s.memory.object? id = some object)
    (hcategory : object.category = .buffer b) {code : Int} (hcode : object.code? = some code)
    (passing : Passing) :
    (s.lend b id object passing).1.Carries (s.lend b id object passing).2.memory object code := by
  refine ⟨?_, hcategory, hcode⟩
  cases passing with
  | shared =>
    show (s.memory.withCopy object).find? (.ofId s.memory.allocations.size) = some object
    rw [find?_ofId, object?_withCopy]
  | automatic | manual | constant => exact (find?_ofId s.memory id).trans hobject

end Lend

/-! ## Operating -/

namespace Arguments

variable {args : Arguments} {b : BufferCategory} {index : Nat} {passing : Passing} {s : Session}
  {h : Handle} {α : Type} {operation : (kind : b.Kind) → Buffer kind → SessionM α}

/-- The container through which the kind of an argument is looked up. -/
def lookedAt (b : BufferCategory) (h : Handle) : Container (.buffer b) := ⟨h, .host, .reference⟩

theorem elementKind_of_handle? (hh : args.handle? index = some h) (hs : s.host = some .reference)
    (hnull : h.isNull = false) :
    args.elementKind b index s =
      match (lookedAt b h).elementKind? s.memory with
      | some kind => .ok kind s
      | none =>
        .error (.failure (.unknownElement (.buffer b) ((lookedAt b h).code s.memory))) s := by
  have hwrapped : args.container (.buffer b) index .constant s = .ok (lookedAt b h) s := by
    rw [container_of_handle? hh]
    exact Container.wrap_of_adopt hs hnull (by simp)
  rw [elementKind, bind_of_ok hwrapped, bind_of_ok (memory_apply s)]
  cases (lookedAt b h).elementKind? s.memory <;> rfl

/-- Where the kind is not found out, nothing else is done. -/
theorem operate_of_no_kind {stop : Stop} {s' : Session}
    (hkind : args.elementKind b index s = .error stop s') :
    args.operate b index passing operation s = .error stop s' :=
  bind_of_error hkind

theorem elementKind_of_error {stop : Stop} {s' : Session}
    (hwrapped : args.container (.buffer b) index .constant s = .error stop s') :
    args.elementKind b index s = .error stop s' :=
  bind_of_error hwrapped

/-- Where the argument is wrapped, the operation is run once, and how it ends is how all ends. -/
theorem operate_of_wrapped {kind kind' : b.Kind} {k : Container (.buffer b)} {s' : Session}
    (hkind : args.elementKind b index s = .ok kind s)
    (hwrapped : args.container (.buffer b) index passing s = .ok k s')
    (hkind' : k.elementKind? s'.memory = some kind') :
    args.operate b index passing operation s = operation kind' ⟨k⟩ s' := by
  -- what the dispatch reports of the operation is taken apart again
  have hdispatch := Container.dispatch_of_kind hkind' α operation
  rw [operate, bind_of_ok hkind, bind_of_ok hwrapped]
  cases hresult : operation kind' ⟨k⟩ s' with
  | ok value s'' =>
    rw [hresult] at hdispatch
    rw [bind_of_ok hdispatch]
    rfl
  | error stop s'' =>
    rw [hresult] at hdispatch
    cases stop with
    | failure cause =>
      rw [bind_of_ok hdispatch]
      rfl
    | panic => exact bind_of_error hdispatch

/-! ## What stands in the way -/

/-- The handle names nothing that is live, or a buffer of the category whose code is one that such
buffers carry. -/
def Presents (args : Arguments) (b : BufferCategory) (index : Nat) (m : Memory) : Prop :=
  ∀ h object, args.handle? index = some h → m.find? h = some object →
    object.category = .buffer b ∧ ∀ code, object.code? = some code → b.CanCarry code

/-- What stands in the way of an operation on the argument at an index, with the failure that it
causes.  What comes first is noticed first. -/
inductive Obstacle (args : Arguments) (b : BufferCategory) (index : Nat) (passing : Passing)
    (s : Session) : Failure → Prop where
  | index (hindex : args.count ≤ index) :
    Obstacle args b index passing s (.argumentIndex index args.count)
  | host {h : Handle} (hh : args.handle? index = some h) (hhost : s.host = none) :
    Obstacle args b index passing s .hostNotInstalled
  | null (hh : args.handle? index = some .null) (hhost : s.host ≠ none) :
    Obstacle args b index passing s (.nullHandle (.buffer b))
  /-- What the handle named has died, or it never named anything. -/
  | dead {h : Handle} (hh : args.handle? index = some h) (hhost : s.host ≠ none)
    (hnull : h.isNull = false) (hdead : s.memory.find? h = none) :
    Obstacle args b index passing s (.unknownElement (.buffer b) b.absentCode)
  | code {h : Handle} {object : Object} {code : Int} (hh : args.handle? index = some h)
    (hhost : s.host ≠ none) (hlive : s.memory.find? h = some object)
    (hcode : object.code? = some code) (hunknown : b.kindOfCode? code = none) :
    Obstacle args b index passing s (.unknownElement (.buffer b) code)
  | clone {h : Handle} {object : Object} {code : Int} {kind : b.Kind}
    (hh : args.handle? index = some h) (hhost : s.host ≠ none)
    (hlive : s.memory.find? h = some object) (hcode : object.code? = some code)
    (hknown : b.kindOfCode? code = some kind) (hshared : passing = .shared)
    (harmed : s.memory.failNextClone = true) :
    Obstacle args b index passing s (.clone (.buffer b))

theorem code_of_dead (hnull : h.isNull = false) {m : Memory} (hdead : m.find? h = none) :
    (lookedAt b h).code m = b.absentCode := by
  rw [Container.code, Container.ask, if_neg (by simpa [Container.isEmpty, lookedAt] using hnull)]
  show Host.reference.elementCode b h m = b.absentCode
  rcases b with (_ | _) | _ <;>
    simp [Host.reference, askBuffer, hdead, BufferCategory.absentCode, narrow]

section Present

variable {object : Object} {code : Int}

theorem code_of_live (hs : args.Presents b index s.memory) (hh : args.handle? index = some h)
    (hlive : s.memory.find? h = some object) (hcode : object.code? = some code) :
    (lookedAt b h).code s.memory = code := by
  obtain ⟨hcategory, hcarry⟩ := hs h object hh hlive
  have hcarries : (lookedAt b h).Carries s.memory object code := ⟨hlive, hcategory, hcode⟩
  exact hcarries.code_eq rfl (hcarry code hcode)

theorem elementKind_of_live (hs : s.host = some .reference)
    (hpresents : args.Presents b index s.memory) (hh : args.handle? index = some h)
    (hlive : s.memory.find? h = some object) (hcode : object.code? = some code) :
    args.elementKind b index s =
      match b.kindOfCode? code with
      | some kind => .ok kind s
      | none => .error (.failure (.unknownElement (.buffer b) code)) s := by
  rw [elementKind_of_handle? hh hs (isNull_of_find? hlive), Container.elementKind?,
    code_of_live hpresents hh hlive hcode]

end Present

/-- Whatever stands in the way, no operation is run, and only an armed failure may be used up. -/
theorem Obstacle.operate_eq {cause : Failure}
    (hobstacle : args.Obstacle b index passing s cause)
    (hhost : s.host = none ∨ s.host = some .reference)
    (hpresents : args.Presents b index s.memory) :
    ∃ s', (∀ (α : Type) (operation : (kind : b.Kind) → Buffer kind → SessionM α),
        args.operate b index passing operation s = .error (.failure cause) s') ∧
      (s' = s ∨ passing = .shared ∧ cause = .clone (.buffer b) ∧ s.memory.failNextClone = true ∧
        s' = { s with memory := { s.memory with failNextClone := false } }) := by
  have hreference : s.host ≠ none → s.host = some .reference := hhost.resolve_left
  -- all but a refused copy is noticed when the kind is looked up, which leaves the session alone
  cases hobstacle with
  | index hindex =>
    refine ⟨s, fun α operation => operate_of_no_kind (elementKind_of_error ?_), .inl rfl⟩
    rw [container, payload_of_count_le hindex]
    rfl
  | host hh hnone =>
    refine ⟨s, fun α operation => operate_of_no_kind (elementKind_of_error ?_), .inl rfl⟩
    rw [container_of_handle? hh]
    exact Container.wrap_of_no_host hnone
  | null hh hinstalled =>
    refine ⟨s, fun α operation => operate_of_no_kind (elementKind_of_error ?_), .inl rfl⟩
    rw [container_of_handle? hh]
    exact Container.wrap_of_null (hreference hinstalled)
  | dead hh hinstalled hnull hdead =>
    refine ⟨s, fun α operation => operate_of_no_kind ?_, .inl rfl⟩
    rw [elementKind_of_handle? hh (hreference hinstalled) hnull, Container.elementKind?,
      code_of_dead hnull hdead, b.kindOfCode?_absentCode]
  | code hh hinstalled hlive hcode hunknown =>
    refine ⟨s, fun α operation => operate_of_no_kind ?_, .inl rfl⟩
    rw [elementKind_of_live (hreference hinstalled) hpresents hh hlive hcode, hunknown]
  | clone hh hinstalled hlive hcode hknown hshared harmed =>
    have hs := hreference hinstalled
    refine ⟨_, fun α operation => ?_, .inr ⟨hshared, rfl, harmed, rfl⟩⟩
    -- the kind is known, so it is the second wrapping that is refused
    have hkind := elementKind_of_live hs hpresents hh hlive hcode
    rw [hknown] at hkind
    have hwrapped := Container.wrap_of_armed (b := b) hs (isNull_of_find? hlive) harmed
    rw [← hshared, ← container_of_handle? hh] at hwrapped
    rw [operate, bind_of_ok hkind, bind_of_error hwrapped]

/-- Where nothing stands in the way, the argument names a live buffer of a known kind. -/
theorem exists_of_no_obstacle (hno : ∀ cause, ¬ args.Obstacle b index passing s cause)
    (hpresents : args.Presents b index s.memory) :
    s.host ≠ none ∧ ∃ (id : Nat) (object : Object) (kind : b.Kind),
      args.handle? index = some (.ofId id) ∧ s.memory.object? id = some object ∧
        object.category = .buffer b ∧ object.code? = some kind.code ∧
        (passing = .shared → s.memory.failNextClone = false) := by
  -- whatever could be missing or unknown is an obstacle
  cases hh : args.handle? index with
  | none =>
    have hindex : args.count ≤ index := List.getElem?_eq_none_iff.mp (Option.map_eq_none_iff.mp hh)
    exact absurd (.index hindex) (hno _)
  | some h =>
    have hinstalled : s.host ≠ none := fun hnone => hno _ (.host hh hnone)
    have hnull : h.isNull = false := by
      by_contra hnull
      obtain rfl : h = .null := by
        cases h
        simpa [Handle.isNull, Handle.null] using hnull
      exact hno _ (.null hh hinstalled)
    cases hlive : s.memory.find? h with
    | none => exact absurd (.dead hh hinstalled hnull hlive) (hno _)
    | some object =>
      obtain ⟨hcategory, -⟩ := hpresents h object hh hlive
      obtain ⟨code, hcode⟩ : ∃ code, object.code? = some code := by
        obtain ⟨a, rfl, -⟩ | ⟨i, rfl, -⟩ := Object.buffer_cases hcategory
        · exact ⟨a.code, rfl⟩
        · exact ⟨i.code, rfl⟩
      cases hkind : b.kindOfCode? code with
      | none => exact absurd (.code hh hinstalled hlive hcode hkind) (hno _)
      | some kind =>
        obtain ⟨id, rfl, hobject⟩ := find?_eq_some_iff.mp hlive
        obtain rfl := BufferCategory.kindOfCode?_eq_some_iff.mp hkind
        refine ⟨hinstalled, id, object, kind, rfl, hobject, hcategory, hcode, fun hshared => ?_⟩
        by_contra harmed
        exact hno _
          (.clone hh hinstalled hlive hcode hkind hshared (Bool.eq_true_of_not_eq_false harmed))

end Arguments

/-! ## What is left behind -/

/-- The memories differ at most in objects, share counts and counters. -/
structure Memory.SameAside (m m' : Memory) : Prop where
  nodes : m'.nodes = m.nodes
  symbols : m'.symbols = m.symbols
  allocation : m'.failNextAllocation = m.failNextAllocation
  clone : m'.failNextClone = m.failNextClone
  conversions : m'.failConversions = m.failConversions

theorem Memory.SameAside.trans {m m' m'' : Memory} (h : m.SameAside m') (h' : m'.SameAside m'') :
    m.SameAside m'' where
  nodes := h'.nodes.trans h.nodes
  symbols := h'.symbols.trans h.symbols
  allocation := h'.allocation.trans h.allocation
  clone := h'.clone.trans h.clone
  conversions := h'.conversions.trans h.conversions

/-- What an operation leaves of a memory in which the object of a number was its argument.  Under a
shared policy the objects are as they were, and a copy came and went.  Under an automatic policy the
argument is freed, and all else is as it was.  Otherwise the argument may have other elements. -/
def Passing.Settles (passing : Passing) (id : Nat) (object : Object) (m m' : Memory) : Prop :=
  match passing with
  | .shared =>
    (∀ j, m'.object? j = m.object? j) ∧
      (∀ h, h ≠ .ofId m.allocations.size → m'.shares h = m.shares h) ∧
      m'.counters = { m.counters with
        clones := m.counters.clones + 1
        disowns := m.counters.disowns + 1 } ∧
      m.SameAside m'
  | .automatic =>
    m'.object? id = none ∧ (∀ j, j ≠ id → m'.object? j = m.object? j) ∧
      (∀ h, m'.shares h = m.shares h) ∧
      m'.counters = { m.counters with frees := m.counters.frees + 1 } ∧
      m.SameAside m'
  | .manual | .constant =>
    ∃ storage storage', object.storage? = some storage ∧ storage'.size = storage.size ∧
      m' = m.setStorage (.ofId id) storage'

namespace Memory

theorem sameAside_setStorage (m : Memory) (h : Handle) (storage : Storage) :
    m.SameAside (m.setStorage h storage) := by
  unfold setStorage
  cases h.id? <;> exact ⟨rfl, rfl, rfl, rfl, rfl⟩

theorem Kills.sameAside {m m' : Memory} {gone : Set Nat} (h : m.Kills gone m') :
    m.SameAside m' := by
  constructor <;> rw [← h.elsewhere]

theorem reach_of_buffer {m : Memory} {id : Nat} {object : Object}
    (hobject : m.object? id = some object) (hbuffer : object.IsBuffer) :
    m.reach id = {id} := by
  ext other
  rw [mem_reach, Set.mem_singleton_iff]
  constructor
  · exact fun hreach => hreach.eq_of_buffer hobject hbuffer
  · rintro rfl
    exact .root (Live.of_object hobject)

/-- A buffer that is freed goes alone. -/
theorem settles_free {m : Memory} {id : Nat} {object : Object} {storage : Storage}
    (hobject : m.object? id = some object) (hbuffer : object.IsBuffer) :
    Passing.automatic.Settles id object m ((m.setStorage (.ofId id) storage).free (.ofId id)) := by
  have hobject' := object?_setStorage_self hobject storage
  have hlive := Live.of_object hobject'
  have hkills := kills_free hlive
  rw [reach_of_buffer hobject' (hbuffer.setStorage storage)] at hkills
  refine ⟨?freed, fun j hj => ?others, fun h => ?shares, ?counters, ?aside⟩
  case freed =>
    have hdead := ((hkills.died id).mpr (Set.mem_singleton id)).2
    rwa [Live, Option.not_isSome_iff_eq_none] at hdead
  case others =>
    rw [hkills.kept j hj, object?_setStorage, if_neg]
    simpa using Ne.symm hj
  case shares =>
    rw [free_of_live hlive]
    exact (shares_clearAll _ _ h).trans (shares_setStorage m _ storage h)
  case counters => rw [counters_free hlive, counters_setStorage]
  case aside => exact (sameAside_setStorage m _ storage).trans hkills.sameAside

/-- A copy whose last share is given up leaves only counts behind. -/
theorem settles_disown {m : Memory} {id : Nat} {object : Object} {storage : Storage}
    (hbuffer : object.IsBuffer) :
    Passing.shared.Settles id object m
      (((m.withCopy object).setStorage (.ofId m.allocations.size) storage).disown
        (.ofId m.allocations.size)) := by
  let written := (m.withCopy object).setStorage (.ofId m.allocations.size) storage
  have hobject : written.object? m.allocations.size = some (object.setStorage storage) :=
    object?_setStorage_self (object?_withCopy m object) storage
  have hlive := Live.of_object hobject
  have hnone : written.shares (.ofId m.allocations.size) = 0 :=
    (shares_setStorage _ _ storage _).trans (shares_issue_self m object)
  have hkills := kills_disown hlive (by rw [hnone]; decide)
  rw [hnone, if_pos (by decide), reach_of_buffer hobject (hbuffer.setStorage storage)] at hkills
  refine ⟨fun j => ?objects, fun h hnew => ?shares, ?counters, ?aside⟩
  case objects =>
    by_cases hj : j = m.allocations.size
    · -- the copy has died, and its number was not in use before
      subst hj
      have hdead := ((hkills.died m.allocations.size).mpr (Set.mem_singleton _)).2
      rw [Live, Option.not_isSome_iff_eq_none] at hdead
      rw [hdead, object?, Array.getElem?_eq_none le_rfl, Option.bind_none]
    · rw [hkills.kept j hj, object?_setStorage, if_neg (by simpa using Ne.symm hj), withCopy,
        object?_count, object?_issue, if_neg hj]
  case shares =>
    rw [shares_disown hlive, if_neg hnew, shares_setStorage]
    exact shares_issue m object hnew
  case counters =>
    rw [counters_disown hlive, counters_setStorage]
    rfl
  case aside =>
    have hcopied : m.SameAside (m.withCopy object) := ⟨rfl, rfl, rfl, rfl, rfl⟩
    exact (hcopied.trans (sameAside_setStorage _ _ storage)).trans hkills.sameAside

end Memory

/-! ## Operations on arguments -/

/-- An operation that was given what was lent to it leaves what the policy says. -/
theorem Spends.settles {b : BufferCategory} {α : Type}
    {operation : (kind : b.Kind) → Buffer kind → SessionM α} (hspends : Spends operation)
    {s : Session} {id : Nat} {object : Object} (hobject : s.memory.object? id = some object)
    (hcategory : object.category = .buffer b) (passing : Passing) (kind : b.Kind) :
    ∃ m', endState (operation kind ⟨(s.lend b id object passing).1⟩
        (s.lend b id object passing).2) = { s with memory := m' } ∧
      passing.Settles id object s.memory m' := by
  have hbuffer : object.IsBuffer := Object.isBuffer_of_category hcategory
  obtain ⟨storage, hstorage⟩ := hbuffer.exists_storage
  obtain ⟨writes, hend⟩ := hspends kind ⟨(s.lend b id object passing).1⟩
    (s.lend b id object passing).2
  -- what is lent is overwritten in place, and then released as its owner says
  have hwritten {m : Memory} {id : Nat} (owner : Ownership) (hlive : m.object? id = some object) :
      ∃ storage', storage'.size = storage.size ∧
        (⟨⟨.ofId id, owner, .reference⟩⟩ : Buffer kind).overwrite writes m =
          m.setStorage (.ofId id) storage' :=
    Buffer.overwrite_of_live rfl rfl hlive hcategory hstorage writes
  cases passing with
  | shared =>
    obtain ⟨storage', -, hstored⟩ := hwritten .shared (object?_withCopy s.memory object)
    refine ⟨_, hend, ?_⟩
    simp only [Session.lend, Passing.acquire, Passing.owner, hstored, Container.releaseIn_ofId]
    exact settles_disown hbuffer
  | automatic =>
    obtain ⟨storage', -, hstored⟩ := hwritten .library hobject
    refine ⟨_, hend, ?_⟩
    simp only [Session.lend, Passing.acquire, Passing.owner, hstored, Container.releaseIn_ofId]
    exact settles_free hobject hbuffer
  | manual | constant =>
    obtain ⟨storage', hsize, hstored⟩ := hwritten .host hobject
    refine ⟨_, hend, ?_⟩
    simp only [Session.lend, Passing.acquire, Passing.owner, hstored, Container.releaseIn_ofId]
    exact ⟨storage, storage', hstorage, hsize, rfl⟩

/-- **An operation on an argument disturbs nothing that it cannot process, and never what is
shared.**  The argument at the index names a live buffer of the category, or something dead, or
nothing; its code may be any.  If something stands in the way, every operation fails with the cause
of that, none is run, and nothing has changed, but that an armed refusal of copies may be used up.
Otherwise the operation is run once, at the kind that the code of the argument says, and how it ends
is how all ends.  If it only overwrites elements and drops what it was given, then under a shared
policy all objects are as they were, and one copy and one share were counted; under an automatic
policy the argument was freed and all else is as it was; and otherwise at most the elements of the
argument are others, in storage of the same size. -/
theorem Arguments.operate_spares (args : Arguments) (b : BufferCategory) (index : Nat)
    (passing : Passing) (s : Session) (hhost : s.host = none ∨ s.host = some .reference)
    (hpresents : args.Presents b index s.memory) :
    (∀ cause, args.Obstacle b index passing s cause →
      ∃ s', (∀ (α : Type) (operation : (kind : b.Kind) → Buffer kind → SessionM α),
          args.operate b index passing operation s = .error (.failure cause) s') ∧
        (s' = s ∨ passing = .shared ∧ cause = .clone (.buffer b) ∧
          s.memory.failNextClone = true ∧
          s' = { s with memory := { s.memory with failNextClone := false } })) ∧
    ((∀ cause, ¬ args.Obstacle b index passing s cause) →
      ∃ (id : Nat) (object : Object) (kind : b.Kind), args.handle? index = some (.ofId id) ∧
        s.memory.object? id = some object ∧ object.code? = some kind.code ∧
        ∀ (α : Type) (operation : (kind : b.Kind) → Buffer kind → SessionM α),
          args.operate b index passing operation s =
            operation kind ⟨(s.lend b id object passing).1⟩ (s.lend b id object passing).2 ∧
          (Spends operation → ∃ m',
            endState (args.operate b index passing operation s) = { s with memory := m' } ∧
              passing.Settles id object s.memory m')) := by
  refine ⟨fun cause hobstacle => hobstacle.operate_eq hhost hpresents, fun hno => ?_⟩
  obtain ⟨hinstalled, id, object, kind, hh, hobject, hcategory, hcode, harmed⟩ :=
    Arguments.exists_of_no_obstacle hno hpresents
  have hs := hhost.resolve_left hinstalled
  refine ⟨id, object, kind, hh, hobject, hcode, fun α operation => ?_⟩
  have hrun : args.operate b index passing operation s =
      operation kind ⟨(s.lend b id object passing).1⟩ (s.lend b id object passing).2 := by
    have hlive : s.memory.find? (.ofId id) = some object := (find?_ofId _ id).trans hobject
    have hkindOfCode : b.kindOfCode? kind.code = some kind :=
      BufferCategory.kindOfCode?_eq_some_iff.mpr rfl
    have hkind := Arguments.elementKind_of_live hs hpresents hh hlive hcode
    rw [hkindOfCode] at hkind
    refine Arguments.operate_of_wrapped hkind
      ((Arguments.container_of_handle? hh _ _ _).trans
        (Container.wrap_eq_lend hs hobject hcategory harmed)) ?_
    -- what is lent carries the code that was looked up before
    have hcarries := Session.lend_carries hobject hcategory hcode passing (s := s)
    rw [Container.elementKind?, hcarries.code_eq (by cases passing <;> rfl)
      ((hpresents _ object hh hlive).2 _ hcode), hkindOfCode]
  refine ⟨hrun, fun hspends => ?_⟩
  rw [hrun]
  exact hspends.settles hobject hcategory passing kind

/-- Two signed bytes, and an array of a code that the library does not know. -/
def handedOver : Session where
  host := some .reference
  memory :=
    { allocations := #[⟨some (.array ⟨.numeric, 1, [2], 2, ⟨#[7, 9, 0, 0, 0, 0, 0, 0]⟩⟩), 3⟩,
        ⟨some (.array ⟨.numeric, 99, [1], 1, ⟨#[7, 0, 0, 0, 0, 0, 0, 0]⟩⟩), 0⟩] }

/-- A call with both of them as arguments. -/
def handedOverArguments : Arguments := ⟨[.handle (.ofId 0), .handle (.ofId 1)]⟩

/-- The bytes can be reversed without being touched, and the other array is never operated on. -/
theorem Arguments.operate_on_handedOver :
    handedOverArguments.Presents .numeric 0 handedOver.memory ∧
      handedOverArguments.Presents .numeric 1 handedOver.memory ∧
      (∃ m', endState (handedOverArguments.operate .numeric 0 .shared
          (Deed.perform .reverse) handedOver) = { handedOver with memory := m' } ∧
        (∀ j, m'.object? j = handedOver.memory.object? j) ∧
        m'.shares (.ofId 0) = 3 ∧ m'.counters.clones = 1 ∧ m'.counters.disowns = 1) ∧
      ∀ (α : Type) (operation : (kind : BufferCategory.numeric.Kind) → Buffer kind → SessionM α),
        handedOverArguments.operate .numeric 1 .automatic operation handedOver =
          .error (.failure (.unknownElement .numeric 99)) handedOver := by
  have hfirst : handedOverArguments.Presents .numeric 0 handedOver.memory := by
    rintro h object ⟨⟩ ⟨⟩
    exact ⟨rfl, by rintro code ⟨⟩; decide⟩
  have hsecond : handedOverArguments.Presents .numeric 1 handedOver.memory := by
    rintro h object ⟨⟩ ⟨⟩
    exact ⟨rfl, by rintro code ⟨⟩; decide⟩
  refine ⟨hfirst, hsecond, ?reversed, fun α operation => ?unknown⟩
  case reversed =>
    have hno : ∀ cause, ¬ handedOverArguments.Obstacle .numeric 0 .shared handedOver cause := by
      intro cause hobstacle
      cases hobstacle with
      | index hindex => exact absurd hindex (by decide)
      | host _ hhost => cases hhost
      | null hh => cases hh
      | dead hh _ _ hdead => cases hh; cases hdead
      | code hh _ hlive hcode hunknown => cases hh; cases hlive; cases hcode; cases hunknown
      | clone _ _ _ _ _ _ harmed => cases harmed
    obtain ⟨id, object, kind, -, -, -, hrun⟩ :=
      (operate_spares handedOverArguments .numeric 0 .shared handedOver (.inr rfl) hfirst).2 hno
    obtain ⟨m', hend, hobjects, hshares, hcounters, -⟩ :=
      (hrun Sight (Deed.perform .reverse)).2 (Deed.spends (by simp))
    exact ⟨m', hend, hobjects, (hshares _ (by decide)).trans rfl, by rw [hcounters]; rfl,
      by rw [hcounters]; rfl⟩
  case unknown =>
    obtain ⟨s', hfails, hsame⟩ :=
      (operate_spares handedOverArguments .numeric 1 .automatic handedOver (.inr rfl) hsecond).1 _
        (.code (h := .ofId 1) rfl (by simp [handedOver]) rfl rfl rfl)
    rcases hsame with rfl | ⟨hshared, -⟩
    · exact hfails α operation
    · cases hshared

end Custody
