import Custody.Proofs.Session
import Custody.Container.Dispatch
import Custody.DataList.Append
import Custody.DataList.Read
import Custody.Host.Reference
import Mathlib.Data.List.Basic

/-!
# Containers do not depend on the installed host

A container keeps the host that it came from.  Whatever is done with containers, and with what they
give, asks that host, and not the one that is installed at the moment.  So another host can be
installed in between, or none at all, and nothing that is done with containers comes out differently
(`containers_outlive_installations`).

- `Session.Agrees`: two sessions in which different hosts may be installed.
- `Alike`: two actions that come out the same, whichever hosts are installed for either.
- `Operates`: what can be done with containers, buffers, lists and nodes.
- `Meddled`: an action, and the same action with installations at any points.
- `NeedsHost`: what cannot be done while no host is installed.
-/

namespace Custody

open SessionM

/-! ## Sessions under different hosts -/

/-- Two sessions are the same but for the host that is installed and its configuration. -/
structure Session.Agrees (s s' : Session) : Prop where
  memory : s.memory = s'.memory
  registry : s.registry = s'.registry
  textResult : s.textResult = s'.textResult

/-- The same is done to the memory on both sides. -/
theorem Session.Agrees.then_memory {s s' : Session} (h : s.Agrees s') (m : Memory) :
    { s with memory := m }.Agrees { s' with memory := m } :=
  ⟨rfl, h.registry, h.textResult⟩

/-- Both actions give the same value, or stop for the same reason, and the sessions agree. -/
inductive SameEnd {α : Type} :
    EStateM.Result Stop Session α → EStateM.Result Stop Session α → Prop where
  | ok (a : α) {s s' : Session} (h : s.Agrees s') : SameEnd (.ok a s) (.ok a s')
  | error (stop : Stop) {s s' : Session} (h : s.Agrees s') :
    SameEnd (.error stop s) (.error stop s')

/-- Whatever is installed for the one and for the other, two actions come out the same. -/
def Alike {α : Type} (x y : SessionM α) : Prop :=
  ∀ s s' : Session, s.Agrees s' → SameEnd (x s) (y s')

namespace Alike

variable {α β : Type} {x y : SessionM α}

theorem pure (a : α) : Alike (Pure.pure a) (Pure.pure a) := fun _ _ h => .ok a h

theorem throw (stop : Stop) : Alike (throw stop : SessionM α) (throw stop) :=
  fun _ _ h => .error stop h

theorem fail (cause : Failure) : Alike (fail cause : SessionM α) (fail cause) :=
  throw (.failure cause)

theorem ofExcept (e : Except Failure α) : Alike (ofExcept e) (ofExcept e) := by
  cases e with
  | ok a => exact .pure a
  | error cause => exact .fail cause

theorem memory : Alike SessionM.memory SessionM.memory := by
  intro s s' h
  rw [memory_apply, memory_apply, h.memory]
  exact .ok s'.memory h

theorem onMemory (f : Memory → α × Memory) : Alike (onMemory f) (onMemory f) := by
  intro s s' h
  rw [onMemory_apply, onMemory_apply, h.memory]
  exact .ok _ (h.then_memory _)

theorem change (f : Memory → Memory) : Alike (change f) (change f) := by
  intro s s' h
  rw [change_apply, change_apply, h.memory]
  exact .ok () (h.then_memory _)

theorem bind {f g : α → SessionM β} (h : Alike x y) (hf : ∀ a, Alike (f a) (g a)) :
    Alike (x >>= f) (y >>= g) := by
  intro s s' hs
  have hfirst : SameEnd (x s) (y s') := h s s' hs
  generalize hx : x s = r at hfirst
  generalize hy : y s' = r' at hfirst
  cases hfirst with
  | ok a ht =>
    rw [bind_of_ok hx, bind_of_ok hy]
    exact hf a _ _ ht
  | error stop ht =>
    rw [bind_of_error hx, bind_of_error hy]
    exact .error stop ht

theorem attempt (h : Alike x y) : Alike (attempt x) (attempt y) := by
  intro s s' hs
  have hfirst : SameEnd (x s) (y s') := h s s' hs
  generalize hx : x s = r at hfirst
  generalize hy : y s' = r' at hfirst
  cases hfirst with
  | ok a ht =>
    rw [attempt_of_ok hx, attempt_of_ok hy]
    exact .ok _ ht
  | error stop ht =>
    cases stop with
    | failure cause =>
      rw [attempt_of_failure hx, attempt_of_failure hy]
      exact .ok _ ht
    | panic =>
      rw [attempt_of_panic hx, attempt_of_panic hy]
      exact .error .panic ht

/-- Looking at the memory, and going on with what is seen. -/
theorem seeing {f g : Memory → SessionM α} (hf : ∀ m, Alike (f m) (g m)) :
    Alike (SessionM.memory >>= f) (SessionM.memory >>= g) :=
  .bind .memory hf

end Alike

/-! ## What is done with containers -/

section Container

variable {c : Category} {b : BufferCategory} {α : Type}

theorem alike_copyHandle (c : Category) (host : Host) (h : Handle) :
    Alike (Container.copyHandle c host h) (Container.copyHandle c host h) := by
  refine .bind (.onMemory _) fun answer => ?_
  cases answer with
  | none => exact .fail _
  | some copied => exact .pure copied

theorem alike_tryClone (k : Container c) : Alike k.tryClone k.tryClone :=
  .bind (.ofExcept _) fun h => .bind (alike_copyHandle c k.host h) fun _ => .pure _

theorem alike_own (c : Category) (host : Host) (cause : Failure)
    (request : Memory → Option Handle × Memory) :
    Alike (Container.own c host cause request) (Container.own c host cause request) := by
  refine .bind (.onMemory request) fun answer => ?_
  cases answer with
  | none => exact .fail cause
  | some h => exact .pure _

theorem alike_convertArray (k : Container .numeric) (target : ArrayKind) (method : ConvertMethod)
    (tolerance : Number.Double) :
    Alike (k.convertArray target method tolerance) (k.convertArray target method tolerance) :=
  .bind (.ofExcept _) fun _ => alike_own _ _ _ _

theorem alike_convertImage (k : Container .image) (target : PixelKind) (interleaved : Bool) :
    Alike (k.convertImage target interleaved) (k.convertImage target interleaved) :=
  .bind (.ofExcept _) fun _ => alike_own _ _ _ _

theorem alike_drop (k : Container c) : Alike k.drop k.drop := .change _

theorem alike_intoBuffer (k : Container (.buffer b)) (kind : b.Kind) :
    Alike (k.intoBuffer kind) (k.intoBuffer kind) := by
  refine .seeing fun m => ?_
  cases k.asBuffer kind m with
  | ok t => exact .pure t
  | error cause => exact .bind (alike_drop k) fun _ => .fail cause

/-- If an operation comes out the same at every kind, it does so where it is dispatched. -/
theorem alike_dispatch (k : Container (.buffer b))
    {operation operation' : (kind : b.Kind) → Buffer kind → SessionM α}
    (h : ∀ kind, Alike (operation kind ⟨k⟩) (operation' kind ⟨k⟩)) :
    Alike (k.dispatch operation) (k.dispatch operation') := by
  refine .seeing fun m => ?_
  cases k.elementKind? m with
  | none => exact .pure _
  | some kind =>
    refine .bind (.attempt (h kind)) fun outcome => ?_
    cases outcome with
    | ok value => exact .pure _
    | error cause => exact .pure _

theorem alike_raise (refused : DispatchFailure b) :
    Alike (refused.raise : SessionM α) refused.raise := by
  cases refused with
  | unknownCode code k => exact .bind (alike_drop k) fun _ => .fail _
  | operation cause => exact .fail cause

/-! ## Buffers -/

variable {kind : b.Kind}

theorem alike_set (t : Buffer kind) (index : Nat) (value : kind.element.Word) :
    Alike (t.set index value) (t.set index value) := by
  refine .seeing fun m => ?_
  split
  · exact .bind (.change _) fun _ => .pure true
  · exact .pure false

theorem alike_fill (t : Buffer kind) (values : List kind.element.Word) :
    Alike (t.fill values) (t.fill values) := by
  refine .seeing fun m => ?_
  split
  · exact .bind (.change _) fun _ => .pure t
  · exact .bind (alike_drop t.container) fun _ => .throw .panic

/-! ## Lists -/

theorem alike_addNode (k : Container .list) (name : Option String) (kind : ArgumentKind)
    (value : Payload) : Alike (k.addNode name kind value) (k.addNode name kind value) := by
  refine .bind (.ofExcept _) fun h => ?_
  split
  · refine .bind (.ofExcept _) fun bytes => .bind (.onMemory _) fun accepted => ?_
    split
    · exact .pure ()
    · exact .fail _
  · exact .fail _

theorem alike_addPlain (k : Container .list) (name : Option String) (value : Plain) :
    Alike (k.addPlain name value) (k.addPlain name value) :=
  .bind (.ofExcept _) fun _ => alike_addNode k name value.kind _

theorem alike_addHandle (k : Container .list) (name : Option String) (kind : ArgumentKind)
    (h : Handle) : Alike (k.addHandle name kind h) (k.addHandle name kind h) := by
  unfold Container.addHandle
  split
  · exact .fail _
  · exact alike_addNode k name kind _

theorem alike_push (k : Container .list) (name : Option String) (item : Item) :
    Alike (k.push name item) (k.push name item) := by
  cases item with
  | plain value => exact alike_addPlain k name value
  | container held =>
    refine .bind (.attempt (alike_addHandle k name _ held.handle)) fun outcome => ?_
    cases outcome with
    | ok _ => exact .pure ()
    | error cause => exact .bind (alike_drop held) fun _ => .fail cause

theorem alike_pushRaw (k : Container .list) (name : Option String) (item : RawItem) :
    Alike (k.pushRaw name item) (k.pushRaw name item) := by
  cases item with
  | plain value => exact alike_addPlain k name value
  | array h => exact .fail _
  | image h => exact alike_addHandle k name .image h
  | list h => exact alike_addHandle k name .dataList h

theorem alike_pushAs (k : Container .list) (name : Option String) (kind : ArgumentKind)
    (item : RawItem) : Alike (k.pushAs name kind item) (k.pushAs name kind item) := by
  unfold Container.pushAs
  split
  · split
    · exact alike_addHandle k name kind _
    · exact .fail _
  · split
    · exact alike_pushRaw k name item
    · exact .fail _

end Container

/-! ## Programs -/

/-- One operation on containers, or on what they have given.  None of them makes a container out of
nothing or out of a handle. -/
inductive Operates : {α : Type} → SessionM α → Prop where
  /-- A container, a buffer or a node is asked about what it holds; the memory has the answer. -/
  | look {α : Type} (question : Memory → α) : Operates (do return question (← memory))
  | set {b : BufferCategory} {kind : b.Kind} (t : Buffer kind) (index : Nat)
    (value : kind.element.Word) : Operates (t.set index value)
  | modify {b : BufferCategory} {kind : b.Kind} (t : Buffer kind)
    (f : List kind.element.Word → List kind.element.Word) : Operates (t.modify f)
  | fill {b : BufferCategory} {kind : b.Kind} (t : Buffer kind) (values : List kind.element.Word) :
    Operates (t.fill values)
  | check {b : BufferCategory} (k : Container (.buffer b)) (kind : b.Kind) :
    Operates (k.intoBuffer kind)
  | clone {c : Category} (k : Container c) : Operates k.tryClone
  | cloneTyped {b : BufferCategory} {kind : b.Kind} (t : Buffer kind) : Operates t.tryClone
  | convertArray (k : Container .numeric) (target : ArrayKind) (method : ConvertMethod)
    (tolerance : Number.Double) : Operates (k.convertArray target method tolerance)
  | convertImage (k : Container .image) (target : PixelKind) (interleaved : Bool) :
    Operates (k.convertImage target interleaved)
  | convertPixels (k : Container .image) (target : PixelKind) : Operates (k.convertPixels target)
  | convertTypedArray {kind : BufferCategory.numeric.Kind} (t : Buffer kind)
    (target : BufferCategory.numeric.Kind) (method : ConvertMethod) (tolerance : Number.Double) :
    Operates (t.convertArray target method tolerance)
  | convertTypedImage {kind : BufferCategory.image.Kind} (t : Buffer kind)
    (target : BufferCategory.image.Kind) (interleaved : Bool) :
    Operates (t.convertImage target interleaved)
  | push (k : Container .list) (name : Option String) (item : Item) : Operates (k.push name item)
  | pushRaw (k : Container .list) (name : Option String) (item : RawItem) :
    Operates (k.pushRaw name item)
  | pushAs (k : Container .list) (name : Option String) (kind : ArgumentKind) (item : RawItem) :
    Operates (k.pushAs name kind item)
  | pass {c : Category} (k : Container c) : Operates (ofExcept k.asResult)
  | drop {c : Category} (k : Container c) : Operates k.drop
  /-- What was not dispatched is given up. -/
  | raise {b : BufferCategory} {α : Type} (refused : DispatchFailure b) :
    Operates (refused.raise : SessionM α)

/-- Every operation comes out the same, whatever is installed. -/
theorem Operates.alike {α : Type} {x : SessionM α} (h : Operates x) : Alike x x := by
  cases h with
  | look question => exact .seeing fun m => .pure (question m)
  | set t index value => exact alike_set t index value
  | modify t f => exact .change _
  | fill t values => exact alike_fill t values
  | check k kind => exact alike_intoBuffer k kind
  | clone k => exact alike_tryClone k
  | cloneTyped t => exact .bind (alike_tryClone t.container) fun _ => .pure _
  | convertArray k target method tolerance => exact alike_convertArray k target method tolerance
  | convertImage k target interleaved => exact alike_convertImage k target interleaved
  | convertPixels k target => exact .seeing fun m => alike_convertImage k target _
  | convertTypedArray t target method tolerance =>
    exact .bind (alike_convertArray t.container target method tolerance) fun _ => .pure _
  | convertTypedImage t target interleaved =>
    exact .bind (alike_convertImage t.container target interleaved) fun _ => .pure _
  | push k name item => exact alike_push k name item
  | pushRaw k name item => exact alike_pushRaw k name item
  | pushAs k name kind item => exact alike_pushAs k name kind item
  | pass k => exact .ofExcept _
  | drop k => exact alike_drop k
  | raise refused => exact alike_raise refused

/-- Install a host with a configuration, or remove the one that is installed. -/
def reinstall : Option (Host × Config) → SessionM Unit
  | some (host, config) => modify (·.install host config)
  | none => modify (·.uninstall)

/-- A program of operations, and the same program with installations at any points of it. -/
inductive Meddled : {α : Type} → SessionM α → SessionM α → Prop where
  | operation {α : Type} {x : SessionM α} (h : Operates x) : Meddled x x
  | pure {α : Type} (a : α) : Meddled (Pure.pure a) (Pure.pure a)
  /-- The program ends here, with a failure of its own or with a panic. -/
  | throw {α : Type} (stop : Stop) : Meddled (throw stop : SessionM α) (throw stop)
  | bind {α β : Type} {x y : SessionM α} {f g : α → SessionM β} (h : Meddled x y)
    (hf : ∀ a, Meddled (f a) (g a)) : Meddled (x >>= f) (y >>= g)
  | attempt {α : Type} {x y : SessionM α} (h : Meddled x y) : Meddled (attempt x) (attempt y)
  | dispatch {b : BufferCategory} {α : Type} (k : Container (.buffer b))
    {operation operation' : (kind : b.Kind) → Buffer kind → SessionM α}
    (h : ∀ kind, Meddled (operation kind ⟨k⟩) (operation' kind ⟨k⟩)) :
    Meddled (k.dispatch operation) (k.dispatch operation')
  /-- A host is installed, or removed, before the program goes on. -/
  | meddle {α : Type} {x y : SessionM α} (host : Option (Host × Config)) (h : Meddled x y) :
    Meddled x (do
      reinstall host
      y)

/-- An installation is not noticed by what comes after it. -/
theorem Alike.after_reinstall {α : Type} {x y : SessionM α} (h : Alike x y)
    (host : Option (Host × Config)) :
    Alike x (do
      reinstall host
      y) := by
  intro s s' hs
  cases host with
  | none =>
    have hremoved : reinstall none s' = .ok () s'.uninstall := rfl
    rw [bind_of_ok hremoved]
    exact h s _ ⟨hs.memory, hs.registry, hs.textResult⟩
  | some installed =>
    obtain ⟨host, config⟩ := installed
    have hinstalled : reinstall (some (host, config)) s' = .ok () (s'.install host config) := rfl
    rw [bind_of_ok hinstalled]
    exact h s _ ⟨hs.memory, hs.registry, hs.textResult⟩

theorem Meddled.alike {α : Type} {x y : SessionM α} (h : Meddled x y) : Alike x y := by
  induction h with
  | operation h => exact h.alike
  | pure a => exact .pure a
  | throw stop => exact .throw stop
  | bind _ _ ih ihf => exact .bind ih ihf
  | attempt _ ih => exact .attempt ih
  | dispatch k _ ih => exact alike_dispatch k ih
  | meddle host _ ih => exact ih.after_reinstall host

/-! ## What needs a host -/

/-- Something new is asked for, or a handle is wrapped. -/
inductive NeedsHost : {α : Type} → SessionM α → Prop where
  | newArray {c : ArrayCategory} (kind : (BufferCategory.array c).Kind) (extents : List Int) :
    NeedsHost (Container.newArray c kind extents)
  | newImage (request : ImageRequest) : NeedsHost (Container.newImage request)
  | newList : NeedsHost Container.newList
  | newTypedArray {c : ArrayCategory} (kind : (BufferCategory.array c).Kind) (extents : List Int) :
    NeedsHost (Buffer.newArray kind extents)
  | newTypedImage (kind : BufferCategory.image.Kind) (slices : Option Int)
    (width height channels : Int) (colorSpace : ColorSpace) (interleaved : Bool) :
    NeedsHost (Buffer.newImage kind slices width height channels colorSpace interleaved)
  /-- Values of another number than the extents ask for are refused before. -/
  | arrayOf {c : ArrayCategory} (kind : (BufferCategory.array c).Kind) (extents : List Int)
    (values : List kind.element.Word)
    (size : Buffer.checkSize (.buffer (.array c)) extents values.length = .ok ()) :
    NeedsHost (Buffer.arrayOf kind extents values)
  | imageOf (kind : BufferCategory.image.Kind) (extents : List Int) (colorSpace : ColorSpace)
    (interleaved : Bool) (values : List kind.element.Word)
    (size : Buffer.checkSize .image extents values.length = .ok ())
    (axes : extents.length = 3 ∨ extents.length = 4) :
    NeedsHost (Buffer.imageOf kind extents colorSpace interleaved values)
  | wrap (c : Category) (h : Handle) (passing : Passing) : NeedsHost (Container.wrap c h passing)
  | wrapNode (h : NodeHandle) : NeedsHost (DataNode.wrap h)

/-- Where no host is installed, this fails at once. -/
theorem NeedsHost.fails {α : Type} {x : SessionM α} (h : NeedsHost x) {s : Session}
    (hs : s.host = none) : x s = .error (.failure .hostNotInstalled) s := by
  have hnone : installedHost s = .error (.failure .hostNotInstalled) s := by
    have hstate : (get : SessionM Session) s = .ok s s := rfl
    rw [installedHost, bind_of_ok hstate, hs]
    rfl
  cases h with
  | newArray kind extents => exact bind_of_error hnone
  | newImage request => exact bind_of_error hnone
  | newList => exact bind_of_error hnone
  | newTypedArray kind extents => exact bind_of_error (bind_of_error hnone)
  | newTypedImage => exact bind_of_error (bind_of_error hnone)
  | arrayOf kind extents values size =>
    rw [Buffer.arrayOf, size, ofExcept_ok, pure_bind]
    exact bind_of_error (bind_of_error (bind_of_error hnone))
  | imageOf kind extents colorSpace interleaved values size axes =>
    rcases axes with hlength | hlength
    · obtain ⟨rows, columns, channels, rfl⟩ := List.length_eq_three.mp hlength
      rw [Buffer.imageOf, size, ofExcept_ok, pure_bind]
      exact bind_of_error (bind_of_error (bind_of_error hnone))
    · obtain ⟨slices, rows, columns, channels, rfl⟩ := List.length_eq_four.mp hlength
      rw [Buffer.imageOf, size, ofExcept_ok, pure_bind]
      exact bind_of_error (bind_of_error (bind_of_error hnone))
  | wrap c h passing => exact bind_of_error hnone
  | wrapNode h => exact bind_of_error hnone

/-! ## Independence -/

/-- **What is done with containers does not depend on the installed host.**  A program of operations
on containers, whichever hosts these come from, gives the same values and stops for the same reasons
if hosts are installed and removed at any points of it, and the memory, the registered conditions
and the text result come out the same; this holds from any sessions that differ in their hosts only.
What needs a host, on the other hand, fails while none is installed, and leaves the session as it
is, with the failures that are armed. -/
theorem containers_outlive_installations {α : Type} {x y : SessionM α} (h : Meddled x y)
    {s s' : Session} (hs : s.Agrees s') :
    SameEnd (x s) (y s') ∧
      ∀ {β : Type} {z : SessionM β}, NeedsHost z → ∀ t : Session, t.host = none →
        z t = .error (.failure .hostNotInstalled) t :=
  ⟨h.alike s s' hs, fun hneeds _ ht => hneeds.fails ht⟩

/-- An array and an empty list, with a failure armed. -/
def Memory.arrayAndList : Memory where
  allocations := #[⟨some (.array ⟨.numeric, 1, [2], 2, ⟨#[7, 9]⟩⟩), 0⟩, ⟨some (.list ⟨[]⟩), 0⟩]
  failNextAllocation := true

/-- A copy of the array is appended to the list, while the host is removed first and replaced by one
that copies nothing later. -/
theorem append_under_other_hosts :
    let array : Container .numeric := ⟨.ofId 0, .host, .reference⟩
    let list : Container .list := ⟨.ofId 1, .host, .reference⟩
    let append (copy : Container .numeric) : SessionM Int := do
      list.push none (.container copy)
      return list.nodeCount (← memory)
    let silent : Host := { Host.reference with clone := fun _ _ m => (none, m) }
    let s : Session := { memory := .arrayAndList, host := some .reference }
    ∃ t t', (array.tryClone >>= append) s = .ok 1 t ∧
      (do
        reinstall none
        let copy ← array.tryClone
        reinstall (some (silent, {}))
        append copy) s.uninstall = .ok 1 t' ∧
      t.memory = t'.memory ∧ t.memory.liveCount = 3 ∧
      Container.newList s.uninstall = .error (.failure .hostNotInstalled) s.uninstall := by
  intro array list append silent s
  have hmeddled : Meddled (array.tryClone >>= append) (do
      reinstall none
      let copy ← array.tryClone
      reinstall (some (silent, {}))
      append copy) :=
    .meddle none (.bind (.operation (.clone array)) fun copy => .meddle (some (silent, {}))
      (.bind (.operation (.push list none (.container copy))) fun _ =>
        .operation (.look list.nodeCount)))
  have hagrees : s.Agrees s.uninstall := ⟨rfl, rfl, rfl⟩
  obtain ⟨hsame, hneeds⟩ := containers_outlive_installations hmeddled hagrees
  have hlist := hneeds .newList s.uninstall rfl
  have hcounted : (match (array.tryClone >>= append) s with
    | .ok n t => some (n, t.memory.liveCount)
    | .error _ _ => none) = some (1, 3) := by decide
  generalize (array.tryClone >>= append) s = r at hsame hcounted ⊢
  generalize (do
    reinstall none
    let copy ← array.tryClone
    reinstall (some (silent, {}))
    append copy) s.uninstall = r' at hsame ⊢
  cases hsame with
  | ok n ht =>
    obtain ⟨rfl, hlive⟩ : n = 1 ∧ _ := by simpa using hcounted
    exact ⟨_, _, rfl, rfl, ht.memory, hlive, hlist⟩
  | error stop ht => cases hcounted

end Custody
