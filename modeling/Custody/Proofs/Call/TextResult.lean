import Custody.Proofs.Container.Independence
import Custody.Proofs.Estate.Run
import Custody.Proofs.Report

/-!
# How long a text result can be read

The slot of a call does not hold a text, but says which text result it is; the text is in the
session.  So it can be read until the next text is set, in whatever call, and nothing else that
happens makes a difference: all that the library does touches the session in the memory of its host
alone, and what happens to the session from outside does not concern the last text result.

- `Confined`: an action that touches nothing of the session but the memory.
- `Operates.confined`, `Estate.Makes.confined`: whatever the library does is such an action.
- `Course`: anything that happens to a session, with the number of texts that were set meanwhile.
- `Course.textResult`: the last text result is that of the start, unless a text was set.
- `CallM.payload?_of_setText`: what is read from the slot of a text result, at any time.
-/

namespace Custody

open SessionM Text

/-! ## Actions on the memory -/

/-- However the action ends, the session is as it was but for the memory. -/
def Confined {α : Type} (x : SessionM α) : Prop :=
  ∀ s, ∃ m, endState (x s) = { s with memory := m }

namespace Confined

variable {α β : Type} {x : SessionM α}

theorem pure (a : α) : Confined (Pure.pure a) := fun s => ⟨s.memory, rfl⟩

theorem throw (stop : Stop) : Confined (throw stop : SessionM α) := fun s => ⟨s.memory, rfl⟩

theorem fail (cause : Failure) : Confined (fail cause : SessionM α) := throw (.failure cause)

theorem ofExcept (e : Except Failure α) : Confined (ofExcept e) := by
  cases e with
  | ok a => exact .pure a
  | error cause => exact .fail cause

theorem get : Confined (get : SessionM Session) := fun s => ⟨s.memory, rfl⟩

theorem onMemory (f : Memory → α × Memory) : Confined (onMemory f) := fun _ => ⟨_, rfl⟩

theorem change (f : Memory → Memory) : Confined (change f) := fun _ => ⟨_, rfl⟩

theorem bind {f : α → SessionM β} (h : Confined x) (hf : ∀ a, Confined (f a)) :
    Confined (x >>= f) := by
  intro s
  obtain ⟨m, hfirst⟩ := h s
  cases hx : x s with
  | ok a s' =>
    -- the second action starts in the session that the first one left
    rw [hx] at hfirst
    obtain ⟨m', hsecond⟩ := hf a s'
    rw [bind_of_ok hx, hsecond]
    exact ⟨m', by rw [show s' = { s with memory := m } from hfirst]⟩
  | error stop s' =>
    rw [hx] at hfirst
    exact ⟨m, by rw [bind_of_error hx, ← hfirst]; rfl⟩

theorem attempt (h : Confined x) : Confined (attempt x) := by
  intro s
  obtain ⟨m, hfirst⟩ := h s
  refine ⟨m, ?_⟩
  rw [← hfirst]
  cases hx : x s with
  | ok a s' => rw [attempt_of_ok hx]; rfl
  | error stop s' =>
    cases stop with
    | failure cause => rw [attempt_of_failure hx]; rfl
    | panic => rw [attempt_of_panic hx]; rfl

/-- Looking at the memory, and going on with what is seen. -/
theorem seeing {f : Memory → SessionM α} (hf : ∀ m, Confined (f m)) :
    Confined (SessionM.memory >>= f) :=
  .bind (.bind .get fun _ => .pure _) hf

theorem installedHost : Confined installedHost := by
  refine .bind .get fun s => ?_
  split
  · exact .pure _
  · exact .fail _

end Confined

/-! ## What the library does -/

section Library

variable {c : Category} {b : BufferCategory}

theorem confined_copyHandle (c : Category) (host : Host) (h : Handle) :
    Confined (Container.copyHandle c host h) := by
  refine .bind (.onMemory _) fun answer => ?_
  cases answer with
  | none => exact .fail _
  | some copied => exact .pure copied

theorem confined_wrap (c : Category) (h : Handle) (passing : Passing) :
    Confined (Container.wrap c h passing) := by
  refine .bind .installedHost fun host => .bind (.ofExcept _) fun adopted => ?_
  split
  · exact .fail _
  · split
    · exact .pure _
    · exact .bind (confined_copyHandle c host h) fun _ => .pure _

theorem confined_wrapNode (h : NodeHandle) : Confined (DataNode.wrap h) :=
  .bind .installedHost fun _ => .ofExcept _

theorem confined_tryClone (k : Container c) : Confined k.tryClone :=
  .bind (.ofExcept _) fun h => .bind (confined_copyHandle c k.host h) fun _ => .pure _

theorem confined_drop (k : Container c) : Confined k.drop := .change _

theorem confined_own (c : Category) (host : Host) (cause : Failure)
    (request : Memory → Option Handle × Memory) :
    Confined (Container.own c host cause request) := by
  refine .bind (.onMemory request) fun answer => ?_
  cases answer with
  | none => exact .fail cause
  | some h => exact .pure _

theorem confined_newArray (c : ArrayCategory) (kind : (BufferCategory.array c).Kind)
    (extents : List Int) : Confined (Container.newArray c kind extents) :=
  .bind .installedHost fun _ => confined_own _ _ _ _

theorem confined_newImage (request : ImageRequest) : Confined (Container.newImage request) :=
  .bind .installedHost fun _ => confined_own _ _ _ _

theorem confined_newList : Confined Container.newList :=
  .bind .installedHost fun _ => confined_own _ _ _ _

theorem confined_convertArray (k : Container .numeric) (target : ArrayKind)
    (method : ConvertMethod) (tolerance : Number.Double) :
    Confined (k.convertArray target method tolerance) :=
  .bind (.ofExcept _) fun _ => confined_own _ _ _ _

theorem confined_convertImage (k : Container .image) (target : PixelKind) (interleaved : Bool) :
    Confined (k.convertImage target interleaved) :=
  .bind (.ofExcept _) fun _ => confined_own _ _ _ _

theorem confined_intoBuffer (k : Container (.buffer b)) (kind : b.Kind) :
    Confined (k.intoBuffer kind) := by
  refine .seeing fun m => ?_
  cases k.asBuffer kind m with
  | ok t => exact .pure t
  | error cause => exact .bind (confined_drop k) fun _ => .fail cause

theorem confined_raise {α : Type} (refused : DispatchFailure b) :
    Confined (refused.raise : SessionM α) := by
  cases refused with
  | unknownCode code k => exact .bind (confined_drop k) fun _ => .fail _
  | operation cause => exact .fail cause

variable {kind : b.Kind}

theorem confined_set (t : Buffer kind) (index : Nat) (value : kind.element.Word) :
    Confined (t.set index value) := by
  refine .seeing fun m => ?_
  split
  · exact .bind (.change _) fun _ => .pure true
  · exact .pure false

theorem confined_fill (t : Buffer kind) (values : List kind.element.Word) :
    Confined (t.fill values) := by
  refine .seeing fun m => ?_
  split
  · exact .bind (.change _) fun _ => .pure t
  · exact .bind (confined_drop t.container) fun _ => .throw .panic

theorem confined_arrayOf {c : ArrayCategory} (kind : (BufferCategory.array c).Kind)
    (extents : List Int) (values : List kind.element.Word) :
    Confined (Buffer.arrayOf kind extents values) :=
  .bind (.ofExcept _) fun _ =>
    .bind (.bind (confined_newArray c kind extents) fun _ => .pure _) fun t =>
      confined_fill t values

theorem confined_imageOf (kind : BufferCategory.image.Kind) (extents : List Int)
    (colorSpace : ColorSpace) (interleaved : Bool) (values : List kind.element.Word) :
    Confined (Buffer.imageOf kind extents colorSpace interleaved values) := by
  refine .bind (.ofExcept _) fun _ => ?_
  -- three extents, four, or any other number
  split
  · exact .bind (.bind (confined_newImage _) fun _ => .pure _) fun t => confined_fill t values
  · exact .bind (.bind (confined_newImage _) fun _ => .pure _) fun t => confined_fill t values
  · exact .fail _

theorem confined_addNode (k : Container .list) (name : Option String) (kind : ArgumentKind)
    (value : Payload) : Confined (k.addNode name kind value) := by
  refine .bind (.ofExcept _) fun h => ?_
  split
  · refine .bind (.ofExcept _) fun bytes => .bind (.onMemory _) fun accepted => ?_
    split
    · exact .pure ()
    · exact .fail _
  · exact .fail _

theorem confined_addPlain (k : Container .list) (name : Option String) (value : Plain) :
    Confined (k.addPlain name value) :=
  .bind (.ofExcept _) fun _ => confined_addNode k name value.kind _

theorem confined_addHandle (k : Container .list) (name : Option String) (kind : ArgumentKind)
    (h : Handle) : Confined (k.addHandle name kind h) := by
  unfold Container.addHandle
  split
  · exact .fail _
  · exact confined_addNode k name kind _

theorem confined_push (k : Container .list) (name : Option String) (item : Item) :
    Confined (k.push name item) := by
  cases item with
  | plain value => exact confined_addPlain k name value
  | container held =>
    refine .bind (.attempt (confined_addHandle k name _ held.handle)) fun outcome => ?_
    cases outcome with
    | ok _ => exact .pure ()
    | error cause => exact .bind (confined_drop held) fun _ => .fail cause

theorem confined_pushRaw (k : Container .list) (name : Option String) (item : RawItem) :
    Confined (k.pushRaw name item) := by
  cases item with
  | plain value => exact confined_addPlain k name value
  | array h => exact .fail _
  | image h => exact confined_addHandle k name .image h
  | list h => exact confined_addHandle k name .dataList h

theorem confined_pushAs (k : Container .list) (name : Option String) (kind : ArgumentKind)
    (item : RawItem) : Confined (k.pushAs name kind item) := by
  unfold Container.pushAs
  split
  · split
    · exact confined_addHandle k name kind _
    · exact .fail _
  · split
    · exact confined_pushRaw k name item
    · exact .fail _

theorem confined_setSymbol (host : Host) (symbol value : String) :
    Confined (setSymbol host symbol value) := by
  refine .bind (.ofExcept _) fun name => .bind (.ofExcept _) fun text =>
    .bind (.onMemory _) fun accepted => ?_
  split
  · exact .pure ()
  · exact .fail _

theorem confined_publishConditions (symbol : String) : Confined (publishConditions symbol) :=
  .bind .installedHost fun host => .bind .get fun _ => confined_setSymbol host symbol _

theorem confined_report (failure : Failure) : Confined (report failure) := by
  refine .bind .get fun s => ?_
  split
  · exact .pure ()
  · exact .bind (.attempt (confined_setSymbol _ _ _)) fun _ => .pure ()

end Library

theorem Operates.confined {α : Type} {x : SessionM α} (h : Operates x) : Confined x := by
  cases h with
  | look question => exact .seeing fun m => .pure (question m)
  | set t index value => exact confined_set t index value
  | modify t f => exact .change _
  | fill t values => exact confined_fill t values
  | check k kind => exact confined_intoBuffer k kind
  | clone k => exact confined_tryClone k
  | cloneTyped t => exact .bind (confined_tryClone t.container) fun _ => .pure _
  | convertArray k target method tolerance => exact confined_convertArray k target method tolerance
  | convertImage k target interleaved => exact confined_convertImage k target interleaved
  | convertPixels k target => exact .seeing fun m => confined_convertImage k target _
  | convertTypedArray t target method tolerance =>
    exact .bind (confined_convertArray t.container target method tolerance) fun _ => .pure _
  | convertTypedImage t target interleaved =>
    exact .bind (confined_convertImage t.container target interleaved) fun _ => .pure _
  | push k name item => exact confined_push k name item
  | pushRaw k name item => exact confined_pushRaw k name item
  | pushAs k name kind item => exact confined_pushAs k name kind item
  | pass k => exact .ofExcept _
  | drop k => exact confined_drop k
  | raise refused => exact confined_raise refused

theorem Estate.Makes.confined {containers : Multiset AnyContainer} {α : Type}
    {given : α → AnyContainer} {x : SessionM α} (h : Makes containers given x) : Confined x := by
  cases h with
  | newArray kind extents => exact confined_newArray _ kind extents
  | newImage request => exact confined_newImage request
  | newList => exact confined_newList
  | newTypedArray kind extents => exact .bind (confined_newArray _ kind extents) fun _ => .pure _
  | newTypedImage => exact .bind (confined_newImage _) fun _ => .pure _
  | arrayOf kind extents values => exact confined_arrayOf kind extents values
  | imageOf kind extents colorSpace interleaved values =>
    exact confined_imageOf kind extents colorSpace interleaved values
  | clone => exact Operates.confined (.clone _)
  | cloneTyped => exact Operates.confined (.cloneTyped _)
  | convertArray _ target method tolerance =>
    exact Operates.confined (.convertArray _ target method tolerance)
  | convertImage _ target interleaved =>
    exact Operates.confined (.convertImage _ target interleaved)
  | convertPixels _ target => exact Operates.confined (.convertPixels _ target)
  | convertTypedArray _ target method tolerance =>
    exact Operates.confined (.convertTypedArray _ target method tolerance)
  | convertTypedImage _ target interleaved =>
    exact Operates.confined (.convertTypedImage _ target interleaved)
  | wrap c h => exact confined_wrap c h _

/-! ## The course of a session -/

/-- Something happens to a session, and no text is set: the library makes a container, does anything
to one or publishes something, a result is set or refused, the host does anything to its memory, or
the installed host or the registered conditions are others from now on. -/
inductive Event : Session → Session → Prop where
  | operate {s : Session} {α : Type} {x : SessionM α} (h : Operates x) : Event s (endState (x s))
  | make {s : Session} {containers : Multiset AnyContainer} {α : Type} {given : α → AnyContainer}
    {x : SessionM α} (h : Estate.Makes containers given x) : Event s (endState (x s))
  | wrap {s : Session} (c : Category) (h : Handle) (passing : Passing) :
    Event s (endState (Container.wrap c h passing s))
  | wrapNode {s : Session} (h : NodeHandle) : Event s (endState (DataNode.wrap h s))
  | publish {s : Session} (symbol : String) : Event s (endState (publishConditions symbol s))
  | set {s : Session} (value : Payload) (slot : ResultSlot) :
    Event s (endState (CallM.set value ⟨s, slot⟩)).session
  | setClamped {s : Session} (value : Int) (slot : ResultSlot) :
    Event s (endState (CallM.setClamped value ⟨s, slot⟩)).session
  | setContainer {s : Session} {c : Category} (k : Container c) (slot : ResultSlot) :
    Event s (endState (CallM.setContainer k ⟨s, slot⟩)).session
  /-- A text that cannot cross is not set. -/
  | refuseText {s : Session} {value : String} (h : ¬ Crosses value) (slot : ResultSlot) :
    Event s (endState (CallM.setText value ⟨s, slot⟩)).session
  | host {s : Session} (m : Memory) : Event s { s with memory := m }
  | reinstall {s : Session} (host : Option (Host × Config)) :
    Event s (endState (reinstall host s))
  | restart {s : Session} (host : Host) (config : Config) : Event s (s.restart host config)
  | register {s : Session} (registry : Registry) : Event s { s with registry }

/-- A sequence of events in which a number of texts were set.  A function that is called, and an
operation that is dispatched, may do whatever can happen to a session, and may end in any way. -/
inductive Course : Session → Nat → Session → Prop where
  | refl (s : Session) : Course s 0 s
  | event {u s s' : Session} {n : Nat} (before : Course u n s) (h : Event s s') : Course u n s'
  | setText {u s : Session} {n : Nat} (before : Course u n s) {value : String}
    (h : Crosses value) (slot : ResultSlot) :
    Course u (n + 1) (endState (CallM.setText value ⟨s, slot⟩)).session
  | dispatch {u s : Session} {n n' : Nat} {b : BufferCategory} {α : Type}
    {k : Container (.buffer b)} (before : Course u n s)
    (operation : (kind : b.Kind) → Buffer kind → SessionM α) {kind : b.Kind}
    (hkind : k.elementKind? s.memory = some kind)
    (effect : Course s n' (endState (operation kind ⟨k⟩ s))) :
    Course u (n + n') (endState (k.dispatch operation s))
  | call {u s : Session} {n n' : Nat} {α : Type} (before : Course u n s) (count : Int)
    (arguments : Option (List Payload)) (slot : ResultSlot) (function : Arguments → CallM α)
    {args : Arguments} (hargs : passedArguments count arguments = some args)
    (effect : Course s n' (endState (function args ⟨s, slot⟩)).session) :
    Course u (n + n') (enter count arguments (some slot) function s).2.1

/-- The text that was set last is the same. -/
theorem Confined.textResult_eq {α : Type} {x : SessionM α} (h : Confined x) (s : Session) :
    (endState (x s)).textResult = s.textResult := by
  obtain ⟨m, hend⟩ := h s
  rw [hend]

/-- A text that can cross becomes the last text result, and nothing else changes. -/
theorem CallM.setText_of_crosses {value : String} (h : Crosses value) (s : Session)
    (slot : ResultSlot) :
    setText value ⟨s, slot⟩ =
      .ok () ⟨{ s with textResult := ⟨utf8 value, s.textResult.serial + 1⟩ },
        .text (s.textResult.serial + 1)⟩ := by
  rw [setText, encodeText_eq_ok_iff.mpr ⟨h, rfl⟩]
  rfl

/-- Of a text that cannot cross, nothing is left but the failure. -/
theorem CallM.setText_of_firstNul {value : String} {position : Nat} (h : FirstNul value position)
    (state : CallState) :
    setText value state =
      .error (.failure (.badText (Flaw.nul position).reason)) state := by
  rw [setText, h.encodeText_eq]
  rfl

theorem textResult_reported (failure : Failure) (s : Session) :
    (reported failure s).textResult = s.textResult := by
  have hend : reported failure s = endState (report failure s) := by
    unfold reported
    cases report failure s <;> rfl
  rw [hend, (confined_report failure).textResult_eq]

/-- However a function ended, telling the host does not concern the text result. -/
theorem textResult_conclude {α : Type} (outcome : Except Stop α) (s : Session) :
    (conclude outcome s).2.textResult = s.textResult := by
  rcases outcome with (cause | _) | value
  · exact textResult_reported cause s
  · rw [conclude]
    split
    · rfl
    · exact textResult_reported panicFailure s
  · rfl

theorem textResult_enter {α : Type} {count : Int} {arguments : Option (List Payload)}
    {slot : ResultSlot} {function : Arguments → CallM α} {s : Session} {args : Arguments}
    (hargs : passedArguments count arguments = some args) :
    (enter count arguments (some slot) function s).2.1.textResult =
      (endState (function args ⟨s, slot⟩)).session.textResult := by
  unfold enter
  simp only [hargs]
  cases function args ⟨s, slot⟩ with
  | ok value after => rfl
  | error stop after => exact textResult_conclude (.error stop : Except Stop α) after.session

theorem Event.textResult_eq {s s' : Session} (h : Event s s') : s'.textResult = s.textResult := by
  cases h with
  | operate h => exact h.confined.textResult_eq s
  | make h => exact h.confined.textResult_eq s
  | wrap c h passing => exact (confined_wrap c h passing).textResult_eq s
  | wrapNode h => exact (confined_wrapNode h).textResult_eq s
  | publish symbol => exact (confined_publishConditions symbol).textResult_eq s
  | set value slot => rfl
  | setClamped value slot => rfl
  | setContainer k slot => rw [Estate.session_setContainer]
  | refuseText h slot =>
    obtain ⟨position, hnul⟩ := exists_firstNul h
    rw [CallM.setText_of_firstNul hnul]
    rfl
  | host m => rfl
  | reinstall host => cases host <;> rfl
  | restart host config => rfl
  | register registry => rfl

/-- The text results are numbered, and as long as none is set, the last one is what it was. -/
theorem Course.textResult {u w : Session} {n : Nat} (h : Course u n w) :
    w.textResult.serial = u.textResult.serial + n ∧ (n = 0 → w.textResult = u.textResult) := by
  induction h with
  | refl => exact ⟨rfl, fun _ => rfl⟩
  | event _ h ih => rwa [h.textResult_eq]
  | setText _ h slot ih =>
    refine ⟨?_, fun hnone => absurd hnone (Nat.succ_ne_zero _)⟩
    rw [CallM.setText_of_crosses h]
    exact congrArg (· + 1) ih.1
  | dispatch _ operation hkind _ ih ihEffect =>
    rw [Estate.endState_dispatch hkind]
    refine ⟨by rw [ihEffect.1, ih.1, Nat.add_assoc], fun hnone => ?_⟩
    obtain ⟨hbefore, heffect⟩ := Nat.add_eq_zero_iff.mp hnone
    rw [ihEffect.2 heffect, ih.2 hbefore]
  | call _ count arguments slot function hargs _ ih ihEffect =>
    rw [textResult_enter hargs]
    refine ⟨by rw [ihEffect.1, ih.1, Nat.add_assoc], fun hnone => ?_⟩
    obtain ⟨hbefore, heffect⟩ := Nat.add_eq_zero_iff.mp hnone
    rw [ihEffect.2 heffect, ih.2 hbefore]

/-- The slot of a text result is read as the text until another text is set, and not at all from
then on. -/
theorem CallM.payload?_of_setText {value : String} (h : Crosses value) (s : Session)
    (slot : ResultSlot) :
    ∃ s' slot', setText value ⟨s, slot⟩ = .ok () ⟨s', slot'⟩ ∧
      ∀ n later, Course s' n later →
        slot'.payload? later = if n = 0 then some (.text (utf8 value)) else none := by
  refine ⟨_, _, setText_of_crosses h s slot, fun n later hcourse => ?_⟩
  obtain ⟨hserial, hlast⟩ := hcourse.textResult
  unfold ResultSlot.payload?
  simp only at hserial ⊢
  -- the slot has the number of its text, and the numbers only grow
  by_cases hnone : n = 0
  · rw [hlast hnone, if_pos hnone, if_pos rfl]
  · rw [if_neg hnone, hserial, if_neg (by omega)]

end Custody
