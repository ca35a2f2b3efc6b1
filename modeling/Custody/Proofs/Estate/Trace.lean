import Custody.Proofs.Estate.Run

/-!
# By the table of the host alone

An action that makes a container changes the memory only by what it asks the host for.  So a
relation between memories that composes, and that holds across everything a host can be asked for on
the way (`Memory.Admits`), holds across the whole action, whichever way the action ends
(`Estate.Makes.traces`).
-/

namespace Custody

open SessionM Memory

/-! ## Relations between memories -/

/-- A relation that composes, and that holds across whatever the reference host is asked for while a
container is made, but for the conversion of an array. -/
structure Memory.Admits (R : Memory → Memory → Prop) : Prop where
  refl (m : Memory) : R m m
  trans {m m' m'' : Memory} : R m m' → R m' m'' → R m m''
  newArray (c : ArrayCategory) (code : Int) (extents : List Int) (m : Memory) :
    R m (Host.reference.newArray c code extents m).2
  newImage (request : ImageRequest) (m : Memory) : R m (Host.reference.newImage request m).2
  newList (m : Memory) : R m (Host.reference.newList m).2
  cloneIf (accepts : Object → Bool) (h : Handle) (m : Memory) : R m (m.cloneIf accepts h).2
  convertImage (h : Handle) (code : Int) (interleaved : Bool) (m : Memory) :
    R m (Host.reference.convertImage h code interleaved m).2
  write {b : BufferCategory} {kind : b.Kind} (t : Buffer kind)
    (hhost : t.container.host = .reference) (index : Nat) (values : List kind.element.Word)
    (m : Memory) : R m (t.writeIn index values m)
  free (h : Handle) (m : Memory) : R m (m.free h)
  disown (h : Handle) (m : Memory) : R m (m.disown h)

variable {R : Memory → Memory → Prop} {α : Type} {s s' : Session} {c : Category}

/-- A container of the reference host is freed, disowned or kept. -/
theorem Memory.Admits.releaseIn (hR : Admits R) {k : Container c} (hhost : k.host = .reference)
    (m : Memory) : R m (k.releaseIn m) := by
  unfold Container.releaseIn
  split
  · exact hR.refl m
  · cases k.owner with
    | library =>
      rw [hhost]
      exact hR.free k.handle m
    | host => exact hR.refl m
    | shared =>
      cases c with
      | list => exact hR.refl m
      | buffer b =>
        show R m (k.host.disown b k.handle m)
        rw [hhost]
        exact hR.disown k.handle m

/-! ## Actions -/

/-- The relation holds between the memories of two sessions, the second of which has the reference
host. -/
structure Session.Through (R : Memory → Memory → Prop) (s s' : Session) : Prop where
  host : s'.host = some .reference
  memory : R s.memory s'.memory

namespace Session.Through

theorem refl (hR : Admits R) (hs : s.host = some .reference) : s.Through R s :=
  ⟨hs, hR.refl s.memory⟩

theorem trans (hR : Admits R) {s'' : Session} (h : s.Through R s') (h' : s'.Through R s'') :
    s.Through R s'' :=
  ⟨h'.host, hR.trans h.memory h'.memory⟩

theorem then_memory (hR : Admits R) (h : s.Through R s') {m : Memory} (hm : R s'.memory m) :
    s.Through R { s' with memory := m } :=
  ⟨h.host, hR.trans h.memory hm⟩

end Session.Through

/-- Whether it gives a container of the reference host or stops, the relation holds across the
action. -/
def Traces (R : Memory → Memory → Prop) (given : α → AnyContainer) (x : SessionM α)
    (s : Session) : Prop :=
  Ends x s (fun a s' => (given a).2.host = .reference ∧ s.Through R s') (s.Through R)

/-- However the action ends, it ends with a session that is related to the first. -/
theorem Traces.endState {given : α → AnyContainer} {x : SessionM α} (h : Traces R given x s) :
    s.Through R (endState (x s)) :=
  Ends.endState (h.imp (fun _ _ hgiven => hgiven.2) fun _ hthrough => hthrough)

/-- The rule for a request. -/
theorem ends_through_request {request : Memory → Option Handle × Memory} (hR : Admits R)
    (hs : s.host = some .reference) (hrequest : R s.memory (request s.memory).2)
    {f : Option Handle → SessionM α} {ok : α → Session → Prop} {stopped : Session → Prop}
    (hf : ∀ answer s', s.Through R s' → Ends (f answer) s' ok stopped) :
    Ends (onMemory request >>= f) s ok stopped :=
  .step (onMemory_apply request s) (hf _ _ ((Session.Through.refl hR hs).then_memory hR hrequest))

theorem traces_own (hR : Admits R) (c : Category) (cause : Failure)
    {request : Memory → Option Handle × Memory} (hs : s.host = some .reference)
    (hrequest : R s.memory (request s.memory).2) :
    Traces R Container.any (Container.own c .reference cause request) s := by
  apply ends_through_request hR hs hrequest
  rintro (_ | h) s' hthrough
  · exact hthrough
  · exact ⟨rfl, hthrough⟩

theorem traces_of_host {given : α → AnyContainer} {f : Host → SessionM α}
    (hs : s.host = some .reference) (h : Traces R given (f .reference) s) :
    Traces R given (installedHost >>= f) s :=
  .step (installedHost_apply hs) h

theorem traces_newArray (hR : Admits R) {c : ArrayCategory} (kind : (BufferCategory.array c).Kind)
    (extents : List Int) (hs : s.host = some .reference) :
    Traces R Container.any (Container.newArray c kind extents) s :=
  traces_of_host hs (traces_own hR _ _ hs (hR.newArray c kind.code extents s.memory))

theorem traces_newImage (hR : Admits R) (request : ImageRequest) (hs : s.host = some .reference) :
    Traces R Container.any (Container.newImage request) s :=
  traces_of_host hs (traces_own hR _ _ hs (hR.newImage request s.memory))

theorem traces_newList (hR : Admits R) (hs : s.host = some .reference) :
    Traces R Container.any Container.newList s :=
  traces_of_host hs (traces_own hR _ _ hs (hR.newList s.memory))

/-! ## Copies, conversions and wrapped handles -/

theorem ends_through_copyHandle (hR : Admits R) (hs : s.host = some .reference) (c : Category)
    (h : Handle) :
    Ends (Container.copyHandle c .reference h) s (fun _ s' => s.Through R s') (s.Through R) := by
  apply ends_through_request hR hs (hR.cloneIf (copiedAs c) h s.memory)
  rintro (_ | copied) s' hthrough
  · exact hthrough
  · exact hthrough

theorem traces_tryClone (hR : Admits R) {k : Container c} (hfit : k.Fit)
    (hs : s.host = some .reference) : Traces R Container.any k.tryClone s := by
  refine .check (fun h _ => ?_) (.refl hR hs)
  rw [hfit.host]
  apply (ends_through_copyHandle hR hs c h).bind
  exact fun copied s' hthrough => ⟨rfl, hthrough⟩

/-- What is made of the handle of a container. -/
theorem traces_converted (hR : Admits R) {k : Container c} (hfit : k.Fit) {target : Category}
    {cause : Failure} (request : Host → Handle → Memory → Option Handle × Memory)
    (hs : s.host = some .reference)
    (hrequest : R s.memory (request .reference k.handle s.memory).2) :
    Traces R Container.any (do
      let h ← ofExcept k.require
      Container.own target k.host cause (request k.host h)) s := by
  refine .check (fun h hh => ?_) (.refl hR hs)
  obtain rfl : k.handle = h := by
    unfold Container.require at hh
    split at hh
    · cases hh
    · exact Except.ok.inj hh
  rw [hfit.host]
  exact traces_own hR target cause hs hrequest

/-- The relation holds across the conversion of the array, to whatever kind. -/
def Converts (R : Memory → Memory → Prop) (m : Memory) (k : Container .numeric) : Prop :=
  ∀ code method tolerance, R m (Host.reference.convertArray k.handle code method tolerance m).2

theorem traces_convertArray (hR : Admits R) {k : Container .numeric} (hfit : k.Fit)
    (hconverts : Converts R s.memory k) (target : ArrayKind) (method : ConvertMethod)
    (tolerance : Number.Double) (hs : s.host = some .reference) :
    Traces R Container.any (k.convertArray target method tolerance) s :=
  traces_converted hR hfit (fun host h => host.convertArray h target.code method.code tolerance) hs
    (hconverts target.code method.code tolerance)

theorem traces_convertImage (hR : Admits R) {k : Container .image} (hfit : k.Fit)
    (target : PixelKind) (interleaved : Bool) (hs : s.host = some .reference) :
    Traces R Container.any (k.convertImage target interleaved) s :=
  traces_converted hR hfit (fun host h => host.convertImage h target.code interleaved) hs
    (hR.convertImage k.handle target.code interleaved s.memory)

theorem traces_wrap (hR : Admits R) (c : Category) (h : Handle) (passing : Passing)
    (hs : s.host = some .reference) :
    Traces R Container.any (Container.wrap c h passing) s := by
  refine .step (installedHost_apply hs) (.check (fun adopted hadopted => ?_) (.refl hR hs))
  have hhost : adopted.host = .reference := by
    unfold Container.adopt at hadopted
    split at hadopted
    · cases hadopted
    · obtain rfl := Except.ok.inj hadopted
      rfl
  split
  case isTrue => exact .refl hR hs
  case isFalse =>
    cases passing with
    | automatic | manual | constant => exact ⟨hhost, .refl hR hs⟩
    | shared =>
      -- the handle stays with the host, and the container gets a copy
      apply (ends_through_copyHandle hR hs c h).bind
      exact fun copied s' hthrough => ⟨hhost, hthrough⟩

/-! ## Buffers of a known kind -/

section Buffer

variable {b : BufferCategory} {kind : b.Kind}

theorem traces_buffer {x : SessionM (Container (.buffer b))} (h : Traces R Container.any x s) :
    Traces R Buffer.any (do return (⟨← x⟩ : Buffer kind)) s :=
  Ends.bind h fun _ _ hk => hk

/-- Filling a buffer writes into it, or drops it. -/
theorem traces_fill (hR : Admits R) {t : Buffer kind} (hhost : t.container.host = .reference)
    (hs : s.host = some .reference) (values : List kind.element.Word) :
    Traces R Buffer.any (t.fill values) s := by
  have hrefl : s.Through R s := .refl hR hs
  apply Ends.step (memory_apply s)
  split
  · exact .step (change_apply _ s)
      ⟨hhost, hrefl.then_memory hR (hR.write t hhost 0 values s.memory)⟩
  · exact .step (change_apply _ s) (hrefl.then_memory hR (hR.releaseIn hhost s.memory))

/-- A buffer that is filled as soon as it is made. -/
theorem traces_filled (hR : Admits R) {x : SessionM (Container (.buffer b))}
    (h : Traces R Container.any x s) (values : List kind.element.Word) :
    Traces R Buffer.any ((do return (⟨← x⟩ : Buffer kind)) >>= (·.fill values)) s := by
  have hmade : Traces R Buffer.any (do return (⟨← x⟩ : Buffer kind)) s := traces_buffer h
  apply Ends.bind hmade
  rintro t s' ⟨hhost, hthrough⟩
  have hfill : Traces R Buffer.any (t.fill values) s' :=
    traces_fill hR hhost hthrough.host values
  refine hfill.imp ?_ ?_
  · exact fun a s'' ⟨hfilled, hthen⟩ => ⟨hfilled, hthrough.trans hR hthen⟩
  · exact fun s'' hthen => hthrough.trans hR hthen

end Buffer

theorem traces_arrayOf (hR : Admits R) {c : ArrayCategory} (kind : (BufferCategory.array c).Kind)
    (extents : List Int) (values : List kind.element.Word) (hs : s.host = some .reference) :
    Traces R Buffer.any (Buffer.arrayOf kind extents values) s :=
  .check (fun _ _ => traces_filled hR (traces_newArray hR kind extents hs) values) (.refl hR hs)

theorem traces_imageOf (hR : Admits R) (kind : BufferCategory.image.Kind) (extents : List Int)
    (colorSpace : ColorSpace) (interleaved : Bool) (values : List kind.element.Word)
    (hs : s.host = some .reference) :
    Traces R Buffer.any (Buffer.imageOf kind extents colorSpace interleaved values) s := by
  refine .check (fun _ _ => ?_) (.refl hR hs)
  split
  · exact traces_filled hR (traces_newImage hR _ hs) values
  · exact traces_filled hR (traces_newImage hR _ hs) values
  · exact .refl hR hs

/-- The relation holds across every action that makes a container. -/
theorem Estate.Makes.traces {cs : Multiset AnyContainer} {given : α → AnyContainer}
    {x : SessionM α} (h : Makes cs given x) (hR : Admits R) (hs : s.host = some .reference)
    (hfit : ∀ k ∈ cs, k.2.Fit)
    (hconverts : ∀ k : Container .numeric, k.any ∈ cs → Converts R s.memory k) :
    Traces R given x s := by
  cases h with
  | newArray kind extents => exact traces_newArray hR kind extents hs
  | newImage request => exact traces_newImage hR request hs
  | newList => exact traces_newList hR hs
  | newTypedArray kind extents => exact traces_buffer (traces_newArray hR kind extents hs)
  | newTypedImage => exact traces_buffer (traces_newImage hR _ hs)
  | arrayOf kind extents values => exact traces_arrayOf hR kind extents values hs
  | imageOf kind extents colorSpace interleaved values =>
    exact traces_imageOf hR kind extents colorSpace interleaved values hs
  | clone hk => exact traces_tryClone hR (hfit _ hk) hs
  | cloneTyped ht => exact traces_buffer (traces_tryClone hR (hfit _ ht) hs)
  | convertArray hk target method tolerance =>
    exact traces_convertArray hR (hfit _ hk) (hconverts _ hk) target method tolerance hs
  | convertImage hk target interleaved =>
    exact traces_convertImage hR (hfit _ hk) target interleaved hs
  | convertPixels hk target =>
    exact .step (memory_apply s) (traces_convertImage hR (hfit _ hk) target _ hs)
  | convertTypedArray ht target method tolerance =>
    exact traces_buffer
      (traces_convertArray hR (hfit _ ht) (hconverts _ ht) target method tolerance hs)
  | convertTypedImage ht target interleaved =>
    exact traces_buffer (traces_convertImage hR (hfit _ ht) target interleaved hs)
  | wrap c h hpassing => exact traces_wrap hR c h _ hs

end Custody
