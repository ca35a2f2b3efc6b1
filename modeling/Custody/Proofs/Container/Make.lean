import Custody.Proofs.Container.Duty
import Custody.Proofs.Memory.Expand

/-!
# Making containers

Whatever makes a container for the library, be it new, copied, converted or wrapped, asks the host
for at most one object.  `Session.Supplied` says what that does to a session: it only adds, also
where it stops, and what the host supplied is new and a root of the accounts.  An action that makes
a container gives one that takes what was supplied, or that leaves its handle to the host
(`Yields`).

A buffer that is made and then filled with the wrong number of values is dropped on the way out;
what dies with it is new as well.
-/

namespace Custody

open SessionM Memory

/-- A container with its category. -/
def Container.any {c : Category} (k : Container c) : AnyContainer := ⟨c, k⟩

/-- The container of a buffer. -/
def Buffer.any {b : BufferCategory} {kind : b.Kind} (t : Buffer kind) : AnyContainer :=
  t.container.any

/-! ## Writing into buffers -/

/-- What a container of the reference host shows is the storage of a live object. -/
theorem Container.exists_object_of_storage? {b : BufferCategory} {k : Container (.buffer b)}
    {m : Memory} {storage : Storage} (hhost : k.host = .reference)
    (hshown : k.storage? m = some storage) :
    ∃ id object, k.handle = .ofId id ∧ m.object? id = some object ∧
      object.storage? = some storage := by
  have hfound : ∃ object, m.find? k.handle = some object ∧ object.storage? = some storage := by
    unfold Container.storage? Container.ask at hshown
    rw [hhost] at hshown
    split at hshown
    case isTrue => cases hshown
    case isFalse =>
      simp only [Host.reference, askBuffer] at hshown
      split at hshown
      case h_1 a hfound => exact ⟨_, hfound, hshown⟩
      case h_2 i hfound => exact ⟨_, hfound, hshown⟩
      case h_3 => cases hshown
  obtain ⟨object, hfound, hstorage⟩ := hfound
  obtain ⟨id, hhandle, hobject⟩ := find?_eq_some_iff.mp hfound
  exact ⟨id, object, hhandle, hobject, hstorage⟩

/-- Writing into a buffer overwrites the storage of a live object, or nothing. -/
theorem Buffer.writeIn_cases {b : BufferCategory} {kind : b.Kind} (t : Buffer kind)
    (hhost : t.container.host = .reference) (index : Nat) (values : List kind.element.Word)
    (m : Memory) :
    t.writeIn index values m = m ∨
      ∃ id object storage, m.object? id = some object ∧ object.storage? = some storage ∧
        t.writeIn index values m =
          m.setStorage (.ofId id) (storage.writeFrom kind.element.size index values) := by
  unfold Buffer.writeIn
  cases hshown : t.container.storage? m with
  | none => exact .inl rfl
  | some storage =>
    obtain ⟨id, object, hhandle, hobject, hstorage⟩ :=
      Container.exists_object_of_storage? hhost hshown
    simp only [hhost, hhandle, Host.reference, askBuffer]
    split
    · exact .inr ⟨id, object, storage, hobject, hstorage, rfl⟩
    · exact .inr ⟨id, object, storage, hobject, hstorage, rfl⟩
    · exact .inl rfl

theorem Buffer.evolves_writeIn {b : BufferCategory} {kind : b.Kind} (t : Buffer kind)
    (hhost : t.container.host = .reference) (index : Nat) (values : List kind.element.Word)
    (m : Memory) : m.Evolves [] ∅ (t.writeIn index values m) := by
  rcases t.writeIn_cases hhost index values m with hsame | ⟨id, _, storage, -, -, hwritten⟩
  · rw [hsame]
    exact .refl
  · rw [hwritten]
    exact .rewrite .refl (.ofId id) _

theorem Buffer.accounted_writeIn {b : BufferCategory} {kind : b.Kind} {t : Buffer kind}
    (hhost : t.container.host = .reference) (index : Nat) (values : List kind.element.Word)
    {m : Memory} {roots : Multiset Nat} (haccounted : m.Accounted roots) :
    (t.writeIn index values m).Accounted roots := by
  rcases t.writeIn_cases hhost index values m with hsame | ⟨id, _, storage, -, -, hwritten⟩
  · rwa [hsame]
  · rw [hwritten]
    exact haccounted.setStorage (.ofId id) _

/-! ## Supplied sessions -/

/-- On the reference host, what has died or was appended concerns only new objects; what was
supplied, if anything, is new and is one root more. -/
structure Session.Supplied (s : Session) (supplied : Option Nat) (s' : Session) : Prop where
  host : s'.host = some .reference
  expands : ∃ added gone, Expands s.memory.allocations.size s.memory added gone s'.memory
  accounted : ∀ roots, s.memory.Accounted roots → s'.memory.Accounted (supplied.toList + roots)
  new : ∀ id ∈ supplied, s.memory.allocations.size ≤ id

namespace Session.Supplied

variable {s s' : Session} {supplied : Option Nat}

theorem refl (hs : s.host = some .reference) : s.Supplied none s where
  host := hs
  expands := ⟨[], ∅, .refl s.memory⟩
  accounted roots haccounted := by rwa [Option.toList_none, Multiset.coe_nil, zero_add]
  new := by simp

theorem writeIn (h : s.Supplied supplied s') {b : BufferCategory} {kind : b.Kind} {t : Buffer kind}
    (hhost : t.container.host = .reference) (index : Nat) (values : List kind.element.Word) :
    s.Supplied supplied { s' with memory := t.writeIn index values s'.memory } where
  host := h.host
  expands := by
    obtain ⟨added, gone, hexpands⟩ := h.expands
    exact ⟨_, _, hexpands.trans (.of_quiet (t.evolves_writeIn hhost index values _))⟩
  accounted roots haccounted :=
    Buffer.accounted_writeIn hhost index values (h.accounted roots haccounted)
  new := h.new

/-- A buffer that was supplied and is freed takes nothing else with it. -/
theorem free {id : Nat} {object : Object} (h : s.Supplied (some id) s')
    (hobject : s'.memory.object? id = some object) (hbuffer : object.IsBuffer) :
    s.Supplied none { s' with memory := s'.memory.free (.ofId id) } where
  host := h.host
  expands := by
    obtain ⟨added, gone, hexpands⟩ := h.expands
    obtain ⟨freed, hfreed, hevolves⟩ := evolves_free s'.memory (.ofId id)
    have hnew : ∀ other ∈ freed, s.memory.allocations.size ≤ other := by
      intro other hother
      obtain ⟨root, hroot, hreach⟩ := hfreed hother
      obtain rfl := Handle.ofId_injective hroot
      obtain rfl := hreach.eq_of_buffer hobject hbuffer
      exact h.new _ rfl
    exact ⟨_, _, hexpands.trans ⟨hevolves, hnew, by simp⟩⟩
  accounted roots haccounted := by
    have hroot := h.accounted roots haccounted
    rw [Option.toList_some, Multiset.coe_singleton, Multiset.singleton_add] at hroot
    rw [Option.toList_none, Multiset.coe_nil, zero_add]
    exact hroot.free
  new := by simp

end Session.Supplied

/-! ## Requests to the host -/

/-- On every memory, the request is answered with a new object that satisfies `P` and that nobody
has, or it is refused. -/
structure Serves (P : Object → Prop) (request : Memory → Option Handle × Memory) : Prop where
  answered : ∀ m, Answered P m (request m)
  offered : ∀ m roots, m.Accounted roots → Offered roots (request m)

namespace Serves

theorem allocate_buffer {object : Option Object} (hbuffer : ∀ l, object ≠ some (.list l)) :
    Serves Object.IsBuffer (·.allocate object) :=
  ⟨fun m => .allocate_buffer m hbuffer,
    fun _ _ haccounted => haccounted.allocate fun l hl => absurd hl (hbuffer l)⟩

theorem allocate_list : Serves (fun _ => True) (·.allocate (some (.list ⟨[]⟩))) := by
  have hempty : ∀ l, some (Object.list ⟨[]⟩) = some (.list l) → l.nodes = [] := by
    rintro l ⟨⟩
    rfl
  exact ⟨fun m => .allocate m hempty fun _ _ => trivial,
    fun _ _ haccounted => haccounted.allocate hempty⟩

theorem allocateImage (request : ImageRequest) :
    Serves Object.IsBuffer (·.allocateImage request) :=
  ⟨fun m => .allocateImage m request, fun _ _ haccounted => haccounted.allocateImage request⟩

theorem cloneIf (accepts : Object → Bool) (h : Handle) :
    Serves (fun _ => True) (·.cloneIf accepts h) :=
  ⟨fun m => .cloneIf m accepts h, fun _ _ haccounted => haccounted.cloneIf accepts h⟩

/-- What is made of an object is a buffer. -/
theorem issueConverted {object : Memory → Option Object}
    (hbuffer : ∀ m l, object m ≠ some (.list l)) :
    Serves Object.IsBuffer fun m => m.issueConverted (object m) :=
  ⟨fun m => .issueConverted m (hbuffer m),
    fun m _ haccounted => haccounted.issueConverted (hbuffer m)⟩

end Serves

variable {α : Type} {s : Session} {c : Category}

/-- The rule for a request. -/
theorem ends_request {P : Object → Prop} {request : Memory → Option Handle × Memory}
    (hserves : Serves P request) (hs : s.host = some .reference) {f : Option Handle → SessionM α}
    {ok : α → Session → Prop} {stopped : Session → Prop}
    (hgiven : ∀ id object s', s.Supplied (some id) s' → s'.memory.object? id = some object →
      P object → Ends (f (some (.ofId id))) s' ok stopped)
    (hrefused : ∀ s', s.Supplied none s' → Ends (f none) s' ok stopped) :
    Ends (onMemory request >>= f) s ok stopped := by
  obtain ⟨⟨added, hexpands⟩, hobject⟩ := hserves.answered s.memory
  have hoffered := hserves.offered s.memory
  apply Ends.step (onMemory_apply request s)
  rcases hanswer : request s.memory with ⟨_ | h, m⟩
  · rw [hanswer] at hexpands hoffered
    refine hrefused _ ⟨hs, ⟨added, ∅, hexpands⟩, fun roots haccounted => ?_, by simp⟩
    rw [Option.toList_none, Multiset.coe_nil, zero_add]
    exact hoffered roots haccounted
  · rw [hanswer] at hexpands hoffered hobject
    obtain ⟨id, object, rfl, hid, hlive, hP⟩ := hobject h rfl
    refine hgiven id object _ ⟨hs, ⟨added, ∅, hexpands⟩, fun roots haccounted => ?_, ?_⟩ hlive hP
    · obtain ⟨root, hroot, hrooted⟩ := hoffered roots haccounted
      obtain rfl := Handle.ofId_injective hroot
      rwa [Option.toList_some, Multiset.coe_singleton, Multiset.singleton_add]
    · rintro _ ⟨⟩
      exact hid

/-! ## Actions that make a container -/

/-- The container leaves its handle to the host, or it is the library's and has what was
supplied. -/
inductive Container.Takes {c : Category} : Option Nat → Container c → Prop where
  | borrowed (h : Handle) : Takes none ⟨h, .host, .reference⟩
  | supplied (id : Nat) {owner : Ownership} (howner : owner ≠ .host)
    (hshareable : owner = .shared → c.shareable = true) :
    Takes (some id) ⟨.ofId id, owner, .reference⟩

namespace Container.Takes

variable {k : Container c} {supplied : Option Nat}

theorem fit (h : k.Takes supplied) : k.Fit := by
  cases h with
  | borrowed h => exact ⟨rfl, fun hshared => by cases hshared⟩
  | supplied id howner hshareable => exact ⟨rfl, hshareable⟩

/-- Its duty is what was supplied. -/
theorem duty_eq (h : k.Takes supplied) :
    k.duty = (supplied.toList : Multiset Nat).map Handle.ofId := by
  cases h with
  | borrowed h => exact duty_eq_zero (.inl rfl)
  | supplied id howner hshareable => exact duty_ofId howner id .reference

end Container.Takes

/-- The action gives a container that takes what was supplied, or it stops with nothing supplied. -/
def Yields (given : α → AnyContainer) (x : SessionM α) : Prop :=
  ∀ s : Session, s.host = some .reference →
    Ends x s (fun a s' => ∃ supplied, (given a).2.Takes supplied ∧ s.Supplied supplied s')
      (s.Supplied none)

/-! ## New objects -/

/-- The action gives a container of the library for a new object that satisfies `P`. -/
def Procures (P : Object → Prop) (x : SessionM (Container c)) : Prop :=
  ∀ s : Session, s.host = some .reference →
    Ends x s
      (fun k s' => ∃ id object, k = ⟨.ofId id, .library, .reference⟩ ∧ s.Supplied (some id) s' ∧
        s'.memory.object? id = some object ∧ P object)
      (s.Supplied none)

theorem procures_own {P : Object → Prop} (c : Category) (cause : Failure)
    {request : Memory → Option Handle × Memory} (hserves : Serves P request) :
    Procures P (Container.own c .reference cause request) := by
  intro s hs
  apply ends_request hserves hs
  · intro id object s' hsupplied hobject hP
    exact ⟨id, object, rfl, hsupplied, hobject, hP⟩
  · exact fun s' hsupplied => hsupplied

/-- The installed host is asked. -/
theorem procures_of_host {P : Object → Prop} {f : Host → SessionM (Container c)}
    (h : Procures P (f .reference)) : Procures P (installedHost >>= f) := by
  intro s hs
  exact .step (installedHost_apply hs) (h s hs)

theorem Procures.yields {P : Object → Prop} {x : SessionM (Container c)} (h : Procures P x) :
    Yields Container.any x := by
  intro s hs
  refine (h s hs).imp ?_ fun _ hsupplied => hsupplied
  rintro _ s' ⟨id, object, rfl, hsupplied, -⟩
  exact ⟨some id, .supplied id (by simp) (by simp), hsupplied⟩

theorem procures_newArray {c : ArrayCategory} (kind : (BufferCategory.array c).Kind)
    (extents : List Int) : Procures Object.IsBuffer (Container.newArray c kind extents) :=
  procures_of_host <| procures_own _ _ <| .allocate_buffer (by simp)

theorem procures_newImage (request : ImageRequest) :
    Procures Object.IsBuffer (Container.newImage request) :=
  procures_of_host <| procures_own _ _ <| .allocateImage request

theorem procures_newList : Procures (fun _ => True) Container.newList :=
  procures_of_host <| procures_own _ _ .allocate_list

/-! ## Copies and conversions -/

theorem ends_copyHandle (hs : s.host = some .reference) (c : Category) (h : Handle) :
    Ends (Container.copyHandle c .reference h) s
      (fun made s' => ∃ id, made = .ofId id ∧ s.Supplied (some id) s') (s.Supplied none) :=
  ends_request (.cloneIf (copiedAs c) h) hs (fun id _ _ hsupplied _ _ => ⟨id, rfl, hsupplied⟩)
    fun _ hsupplied => hsupplied

theorem yields_tryClone {k : Container c} (hfit : k.Fit) : Yields Container.any k.tryClone := by
  intro s hs
  refine .check (fun h _ => ?_) (.refl hs)
  rw [hfit.host]
  apply (ends_copyHandle hs c h).bind
  rintro _ s' ⟨id, rfl, hsupplied⟩
  exact ⟨some id, .supplied id (by simp) (by simp), hsupplied⟩

/-- What is made of the handle of a container. -/
theorem yields_converted {P : Object → Prop} {k : Container c} (hfit : k.Fit) {target : Category}
    {cause : Failure} (request : Host → Handle → Memory → Option Handle × Memory)
    (hserves : ∀ h, Serves P (request .reference h)) :
    Yields Container.any (do
      let h ← ofExcept k.require
      Container.own target k.host cause (request k.host h)) := by
  intro s hs
  refine .check (fun h _ => ?_) (.refl hs)
  rw [hfit.host]
  exact (procures_own target cause (hserves h)).yields s hs

theorem yields_convertArray {k : Container .numeric} (hfit : k.Fit) (target : ArrayKind)
    (method : ConvertMethod) (tolerance : Number.Double) :
    Yields Container.any (k.convertArray target method tolerance) := by
  apply yields_converted hfit fun host h => host.convertArray h target.code method.code tolerance
  intro h
  apply Serves.issueConverted
  simp [Option.bind_eq_some_iff]

theorem yields_convertImage {k : Container .image} (hfit : k.Fit) (target : PixelKind)
    (interleaved : Bool) : Yields Container.any (k.convertImage target interleaved) := by
  apply yields_converted hfit fun host h => host.convertImage h target.code interleaved
  intro h
  apply Serves.issueConverted
  simp [Option.bind_eq_some_iff]

theorem yields_convertPixels {k : Container .image} (hfit : k.Fit) (target : PixelKind) :
    Yields Container.any (k.convertPixels target) := fun s hs =>
  yields_convertImage hfit target (k.isInterleaved s.memory) s hs

/-! ## Wrapped handles -/

/-- Unless the library takes the handle over, its container only borrows it, or has a copy. -/
theorem yields_wrap (c : Category) (h : Handle) {passing : Passing}
    (hpassing : passing ≠ .automatic) : Yields Container.any (Container.wrap c h passing) := by
  intro s hs
  refine .step (installedHost_apply hs) (.check (fun adopted hadopted => ?_) (.refl hs))
  have hadopt : adopted = ⟨h, passing.owner, .reference⟩ := by
    unfold Container.adopt at hadopted
    split at hadopted
    · cases hadopted
    · exact (Except.ok.inj hadopted).symm
  subst hadopt
  -- sharing what is never shared is refused before anything is copied
  split
  case isTrue => exact .refl hs
  case isFalse hshareable =>
    cases passing with
    | automatic => exact absurd rfl hpassing
    | manual | constant => exact ⟨none, .borrowed h, .refl hs⟩
    | shared =>
      apply (ends_copyHandle hs c h).bind
      rintro _ s' ⟨id, rfl, hsupplied⟩
      have hshared : c.shareable = true := by simpa using hshareable
      exact ⟨some id, .supplied id (by simp [Passing.owner]) fun _ => hshared, hsupplied⟩

/-! ## Buffers of a known kind -/

section Buffer

variable {b : BufferCategory} {kind : b.Kind}

/-- A container in its place. -/
theorem yields_buffer {x : SessionM (Container (.buffer b))} (h : Yields Container.any x) :
    Yields Buffer.any (do return (⟨← x⟩ : Buffer kind)) := fun s hs =>
  (h s hs).bind fun _ _ hk => hk

/-- Values that do not fill a new buffer are a mistake, and the buffer, which is all that dies, is
dropped. -/
theorem ends_fill {s' : Session} {id : Nat} {object : Object} (hsupplied : s.Supplied (some id) s')
    (hobject : s'.memory.object? id = some object) (hbuffer : object.IsBuffer)
    (values : List kind.element.Word) :
    Ends ((⟨⟨.ofId id, .library, .reference⟩⟩ : Buffer kind).fill values) s'
      (fun t s'' => t = ⟨⟨.ofId id, .library, .reference⟩⟩ ∧ s.Supplied (some id) s'')
      (s.Supplied none) := by
  apply Ends.step (memory_apply s')
  split
  · exact .step (change_apply _ s') ⟨rfl, hsupplied.writeIn rfl 0 values⟩
  · exact .step (change_apply _ s') (hsupplied.free hobject hbuffer)

/-- A new buffer that is filled at once. -/
theorem yields_filled {x : SessionM (Container (.buffer b))} (h : Procures Object.IsBuffer x)
    (values : List kind.element.Word) :
    Yields Buffer.any ((do return (⟨← x⟩ : Buffer kind)) >>= (·.fill values)) := by
  intro s hs
  have hmade : Ends (do return (⟨← x⟩ : Buffer kind)) s
      (fun t s' => ∃ id object, t = ⟨⟨.ofId id, .library, .reference⟩⟩ ∧ s.Supplied (some id) s' ∧
        s'.memory.object? id = some object ∧ object.IsBuffer)
      (s.Supplied none) := by
    apply (h s hs).bind
    rintro _ s' ⟨id, object, rfl, hobject⟩
    exact ⟨id, object, rfl, hobject⟩
  apply hmade.bind
  rintro _ s' ⟨id, object, rfl, hsupplied, hobject, hbuffer⟩
  refine (ends_fill hsupplied hobject hbuffer values).imp ?_ fun _ hstopped => hstopped
  rintro _ s'' ⟨rfl, hfilled⟩
  exact ⟨some id, .supplied id (by simp) (by simp), hfilled⟩

end Buffer

theorem yields_arrayOf {c : ArrayCategory} (kind : (BufferCategory.array c).Kind)
    (extents : List Int) (values : List kind.element.Word) :
    Yields Buffer.any (Buffer.arrayOf kind extents values) := by
  intro s hs
  refine .check (fun _ _ => ?_) (.refl hs)
  exact yields_filled (procures_newArray kind extents) values s hs

theorem yields_imageOf (kind : BufferCategory.image.Kind) (extents : List Int)
    (colorSpace : ColorSpace) (interleaved : Bool) (values : List kind.element.Word) :
    Yields Buffer.any (Buffer.imageOf kind extents colorSpace interleaved values) := by
  intro s hs
  refine .check (fun _ _ => ?_) (.refl hs)
  split
  · exact yields_filled (procures_newImage _) values s hs
  · exact yields_filled (procures_newImage _) values s hs
  · exact .refl hs

end Custody
