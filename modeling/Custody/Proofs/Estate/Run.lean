import Custody.Proofs.Container.Dispatch
import Custody.Proofs.DataList.Append
import Custody.Call.Result
import Custody.Workbench.Deed

/-!
# Estates

An estate is a session with all that somebody has to look after: the containers that exist, and the
handles that are in the hands of the host.  A run of an estate is any sequence of operations on it,
successful or not, with failures of the host armed at any time, and with operations that are
dispatched and do anything that a run can do.

In every run each live object has exactly one custodian, and nothing is released twice
(`Run.sound`): each operation keeps the accounts (`Step.sound`), whichever way it ends.
-/

namespace Custody

open SessionM Memory

/-- A session with the containers that exist and the handles that the host has to look after. -/
structure Estate where
  session : Session
  containers : Multiset AnyContainer
  hostHeld : Multiset Handle

namespace Estate

/-! ## What an action gives -/

section Outcome

variable {α : Type} (given : α → AnyContainer)

/-- The container that an action gave, if it did not stop. -/
def gained : EStateM.Result Stop Session α → Multiset AnyContainer
  | .ok a _ => {given a}
  | .error _ _ => 0

/-- What is left where it was if an action stopped. -/
def unmoved (h : Handle) : EStateM.Result Stop Session α → Multiset Handle
  | .ok _ _ => 0
  | .error _ _ => {h}

end Outcome

/-! ## Operations -/

/-- The actions that make a container, from nothing or from one of those at hand: new containers of
every category, typed or not, copies, conversions, and containers for handles that stay the
host's. -/
inductive Makes (containers : Multiset AnyContainer) :
    {α : Type} → (α → AnyContainer) → SessionM α → Prop where
  | newArray {c : ArrayCategory} (kind : (BufferCategory.array c).Kind) (extents : List Int) :
    Makes containers Container.any (Container.newArray c kind extents)
  | newImage (request : ImageRequest) : Makes containers Container.any (Container.newImage request)
  | newList : Makes containers Container.any Container.newList
  | newTypedArray {c : ArrayCategory} (kind : (BufferCategory.array c).Kind)
    (extents : List Int) : Makes containers Buffer.any (Buffer.newArray kind extents)
  | newTypedImage (kind : BufferCategory.image.Kind) (slices : Option Int)
    (width height channels : Int) (colorSpace : ColorSpace) (interleaved : Bool) :
    Makes containers Buffer.any
      (Buffer.newImage kind slices width height channels colorSpace interleaved)
  | arrayOf {c : ArrayCategory} (kind : (BufferCategory.array c).Kind) (extents : List Int)
    (values : List kind.element.Word) :
    Makes containers Buffer.any (Buffer.arrayOf kind extents values)
  | imageOf (kind : BufferCategory.image.Kind) (extents : List Int) (colorSpace : ColorSpace)
    (interleaved : Bool) (values : List kind.element.Word) :
    Makes containers Buffer.any (Buffer.imageOf kind extents colorSpace interleaved values)
  | clone {c : Category} {k : Container c} (hk : k.any ∈ containers) :
    Makes containers Container.any k.tryClone
  | cloneTyped {b : BufferCategory} {kind : b.Kind} {t : Buffer kind} (ht : t.any ∈ containers) :
    Makes containers Buffer.any t.tryClone
  | convertArray {k : Container .numeric} (hk : k.any ∈ containers) (target : ArrayKind)
    (method : ConvertMethod) (tolerance : Number.Double) :
    Makes containers Container.any (k.convertArray target method tolerance)
  | convertImage {k : Container .image} (hk : k.any ∈ containers) (target : PixelKind)
    (interleaved : Bool) : Makes containers Container.any (k.convertImage target interleaved)
  | convertPixels {k : Container .image} (hk : k.any ∈ containers) (target : PixelKind) :
    Makes containers Container.any (k.convertPixels target)
  | convertTypedArray {kind : BufferCategory.numeric.Kind} {t : Buffer kind}
    (ht : t.any ∈ containers) (target : BufferCategory.numeric.Kind) (method : ConvertMethod)
    (tolerance : Number.Double) :
    Makes containers Buffer.any (t.convertArray target method tolerance)
  | convertTypedImage {kind : BufferCategory.image.Kind} {t : Buffer kind}
    (ht : t.any ∈ containers) (target : BufferCategory.image.Kind) (interleaved : Bool) :
    Makes containers Buffer.any (t.convertImage target interleaved)
  | wrap (c : Category) (h : Handle) {passing : Passing} (hpassing : passing ≠ .automatic) :
    Makes containers Container.any (Container.wrap c h passing)

/-- One operation on an estate. -/
inductive Step : Estate → Estate → Prop where
  /-- The host makes an object by itself. -/
  | build {s cs hs m} (h : s.memory.Builds m) :
    Step ⟨s, cs, hs⟩
      ⟨{ s with memory := m }, cs, (s.memory.issuedUntil m).val.map Handle.ofId + hs⟩
  /-- The host appends an object that it holds to a list that it holds. -/
  | hostAddObject {s cs hs} {h list : Handle} (hlist : list ∈ {h} + hs) (name : Option String)
    {kind : ArgumentKind} (hkind : kind.category? ≠ none) :
    Step ⟨s, cs, {h} + hs⟩
      ⟨{ s with memory := (s.memory.buildNode list name kind (.handle h)).2 }, cs,
        if (s.memory.buildNode list name kind (.handle h)).1 then hs else {h} + hs⟩
  /-- The host appends a plain value to a list. -/
  | hostAddPlain {s cs hs} (list : Handle) (name : Option String) {kind : ArgumentKind}
    (hkind : kind.category? = none) (value : Payload) :
    Step ⟨s, cs, hs⟩ ⟨{ s with memory := (s.memory.buildNode list name kind value).2 }, cs, hs⟩
  /-- Failures of the host are armed or switched off. -/
  | arm {s cs hs} (allocation clone conversions : Bool) :
    Step ⟨s, cs, hs⟩
      ⟨{ s with memory :=
        { s.memory with
          failNextAllocation := allocation
          failNextClone := clone
          failConversions := conversions } }, cs, hs⟩
  | make {s cs hs} {α : Type} {given : α → AnyContainer} {x : SessionM α}
    (h : Makes cs given x) :
    Step ⟨s, cs, hs⟩ ⟨endState (x s), gained given (x s) + cs, hs⟩
  /-- The library takes a handle over from the host. -/
  | takeOver {s cs hs} (c : Category) (h : Handle) :
    Step ⟨s, cs, {h} + hs⟩
      ⟨endState (Container.wrap c h .automatic s),
        gained Container.any (Container.wrap c h .automatic s) + cs,
        unmoved h (Container.wrap c h .automatic s) + hs⟩
  /-- A container is turned into a buffer of a kind. -/
  | check {s cs hs} {b : BufferCategory} (k : Container (.buffer b)) (kind : b.Kind) :
    Step ⟨s, k.any ::ₘ cs, hs⟩
      ⟨endState (k.intoBuffer kind s), gained Buffer.any (k.intoBuffer kind s) + cs, hs⟩
  /-- Elements of a buffer are overwritten. -/
  | write {s cs hs} {b : BufferCategory} {kind : b.Kind} {t : Buffer kind} (ht : t.any ∈ cs)
    (index : Nat) (values : List kind.element.Word) :
    Step ⟨s, cs, hs⟩ ⟨{ s with memory := t.writeIn index values s.memory }, cs, hs⟩
  /-- A list of the library appends a container that the library owns or shares. -/
  | push {s cs hs} {k : Container .list} (hk : k.any ∈ cs) (hlibrary : k.owner = .library)
    {c : Category} {held : Container c} (howner : held.owner ≠ .host) (name : Option String) :
    Step ⟨s, held.any ::ₘ cs, hs⟩ ⟨endState (k.push name (.container held) s), cs, hs⟩
  | pushPlain {s cs hs} {k : Container .list} (hk : k.any ∈ cs) (name : Option String)
    (value : Plain) : Step ⟨s, cs, hs⟩ ⟨endState (k.push name (.plain value) s), cs, hs⟩
  /-- A container becomes the result of a call.  An empty one is refused; it has no duty. -/
  | pass {s cs hs} {c : Category} (k : Container c) (slot : ResultSlot) :
    Step ⟨s, k.any ::ₘ cs, hs⟩
      ⟨(endState (CallM.setContainer k ⟨s, slot⟩)).session, cs, k.duty + hs⟩
  /-- A container is emptied; its handle goes to the host. -/
  | abandon {s cs hs} {c : Category} (k : Container c) :
    Step ⟨s, k.any ::ₘ cs, hs⟩ ⟨s, k.emptied.any ::ₘ cs, k.duty + hs⟩
  | drop {s cs hs} {c : Category} (k : Container c) :
    Step ⟨s, k.any ::ₘ cs, hs⟩ ⟨endState (k.drop s), cs, hs⟩
  /-- An operation is not dispatched where the kind of the elements is unknown; the container comes
  back. -/
  | notDispatched {s cs hs} {b : BufferCategory} {α : Type} {k : Container (.buffer b)}
    (hkind : k.elementKind? s.memory = none)
    (operation : (kind : b.Kind) → Buffer kind → SessionM α) :
    Step ⟨s, k.any ::ₘ cs, hs⟩ ⟨endState (k.dispatch operation s), k.any ::ₘ cs, hs⟩

/-- Any sequence of operations.  An operation that is dispatched may do whatever a run can do with
the container that it is given and with everything else, and may end in any way. -/
inductive Run : Estate → Estate → Prop where
  | refl (w : Estate) : Run w w
  | step {u v w : Estate} (before : Run u v) (last : Step v w) : Run u w
  | dispatch {u : Estate} {s cs hs} {b : BufferCategory} {α : Type} {k : Container (.buffer b)}
    (operation : (kind : b.Kind) → Buffer kind → SessionM α) {kind : b.Kind}
    (before : Run u ⟨s, k.any ::ₘ cs, hs⟩) (hkind : k.elementKind? s.memory = some kind) {cs' hs'}
    (effect : Run ⟨s, k.any ::ₘ cs, hs⟩ ⟨endState (operation kind ⟨k⟩ s), cs', hs'⟩) :
    Run u ⟨endState (k.dispatch operation s), cs', hs'⟩

/-! ## Soundness -/

/-- The duties of containers. -/
def duties (containers : Multiset AnyContainer) : Multiset Handle := containers.bind (·.2.duty)

/-- The memory is accounted for by the duties of the containers and by what the host holds. -/
structure Sound (w : Estate) : Prop where
  session : w.session.Sound (duties w.containers + w.hostHeld)
  fit : ∀ k ∈ w.containers, k.2.Fit

@[simp] theorem duties_cons (k : AnyContainer) (containers : Multiset AnyContainer) :
    duties (k ::ₘ containers) = k.2.duty + duties containers := Multiset.cons_bind _ _ _

variable {s : Session} {cs : Multiset AnyContainer} {hs : Multiset Handle}

namespace Sound

variable {k : AnyContainer}

/-- Setting one container apart: its duty, and what the others and the host account for. -/
theorem session_cons (hw : Sound ⟨s, k ::ₘ cs, hs⟩) : s.Sound (k.2.duty + (duties cs + hs)) := by
  have hsession := hw.session
  rwa [duties_cons, add_assoc] at hsession

/-- The host takes a duty over. -/
theorem session_handed (hw : Sound ⟨s, k ::ₘ cs, hs⟩) : s.Sound (duties cs + (k.2.duty + hs)) := by
  have hsession := hw.session_cons
  rwa [add_left_comm] at hsession

theorem fit_head (hw : Sound ⟨s, k ::ₘ cs, hs⟩) : k.2.Fit :=
  hw.fit k (Multiset.mem_cons_self k cs)

theorem fit_tail (hw : Sound ⟨s, k ::ₘ cs, hs⟩) : ∀ other ∈ cs, other.2.Fit :=
  fun other hother => hw.fit other (Multiset.mem_cons_of_mem hother)

/-- The host holds one handle among others. -/
theorem session_held {h : Handle} (hw : Sound ⟨s, cs, {h} + hs⟩) :
    s.Sound ({h} + (duties cs + hs)) := by
  have hsession := hw.session
  rwa [add_left_comm] at hsession

end Sound

/-- Whatever is made takes what was supplied for it. -/
theorem Makes.yields {α : Type} {given : α → AnyContainer} {x : SessionM α} (h : Makes cs given x)
    (hfit : ∀ k ∈ cs, k.2.Fit) : Yields given x := by
  cases h with
  | newArray kind extents => exact (procures_newArray kind extents).yields
  | newImage request => exact (procures_newImage request).yields
  | newList => exact procures_newList.yields
  | newTypedArray kind extents => exact yields_buffer (procures_newArray kind extents).yields
  | newTypedImage kind slices width height channels colorSpace interleaved =>
    exact yields_buffer (procures_newImage _).yields
  | arrayOf kind extents values => exact yields_arrayOf kind extents values
  | imageOf kind extents colorSpace interleaved values =>
    exact yields_imageOf kind extents colorSpace interleaved values
  | clone hk => exact yields_tryClone (hfit _ hk)
  | cloneTyped ht => exact yields_buffer (yields_tryClone (hfit _ ht))
  | convertArray hk target method tolerance =>
    exact yields_convertArray (hfit _ hk) target method tolerance
  | convertImage hk target interleaved => exact yields_convertImage (hfit _ hk) target interleaved
  | convertPixels hk target => exact yields_convertPixels (hfit _ hk) target
  | convertTypedArray ht target method tolerance =>
    exact yields_buffer (yields_convertArray (hfit _ ht) target method tolerance)
  | convertTypedImage ht target interleaved =>
    exact yields_buffer (yields_convertImage (hfit _ ht) target interleaved)
  | wrap c h hpassing => exact yields_wrap c h hpassing

/-- An action that gains a container leaves a sound estate, with the container or without. -/
theorem sound_of_gain {α : Type} {given : α → AnyContainer} {x : SessionM α}
    (h : Ends x s (fun a s' => (given a).2.Fit ∧ s'.Sound ((given a).2.duty + (duties cs + hs)))
      fun s' => s'.Sound (duties cs + hs)) (hfit : ∀ k ∈ cs, k.2.Fit) :
    Sound ⟨endState (x s), gained given (x s) + cs, hs⟩ := by
  unfold Ends at h
  cases hresult : x s with
  | ok a s' =>
    rw [hresult] at h
    refine ⟨?_, fun k hk => ?_⟩
    · rw [gained, Multiset.singleton_add, duties_cons, add_assoc]
      exact h.2
    · rw [gained, Multiset.singleton_add] at hk
      rcases Multiset.mem_cons.mp hk with rfl | hk
      · exact h.1
      · exact hfit k hk
  | error stop s' =>
    rw [hresult] at h
    exact ⟨by rwa [gained, zero_add], fun k hk => hfit k (by rwa [gained, zero_add] at hk)⟩

/-- What the host appends by itself goes from its hands to the list, or stays in its hands. -/
theorem sound_hostAddObject {h list : Handle} (hw : Sound ⟨s, cs, {h} + hs⟩)
    (hlist : list ∈ {h} + hs) (name : Option String) {kind : ArgumentKind}
    (hkind : kind.category? ≠ none) :
    Sound ⟨{ s with memory := (s.memory.buildNode list name kind (.handle h)).2 }, cs,
      if (s.memory.buildNode list name kind (.handle h)).1 then hs else {h} + hs⟩ := by
  obtain ⟨held, roots, rfl, hroots, haccounted⟩ := hw.session_held.exists_root
  rcases buildNode_cases s.memory list name kind (.handle (.ofId held)) with
    hrefused | ⟨id, bytes, rfl, hbuilt⟩
  · rw [hrefused]
    exact hw
  by_cases hself : id = held
  · subst hself
    rw [hbuilt, addNode_self s.memory id bytes hkind]
    exact hw
  -- the list is another one of the host's, and so a root beside the object that is appended
  have hmem : id ∈ roots := by
    have hother : Handle.ofId id ∈ hs := by
      rcases Multiset.mem_add.mp hlist with hsame | hother
      · exact absurd (Handle.ofId_injective (Multiset.mem_singleton.mp hsame)) hself
      · exact hother
    have hall : Handle.ofId id ∈ roots.map Handle.ofId :=
      hroots ▸ Multiset.mem_add.mpr (.inr hother)
    obtain ⟨other, hroot, hsame⟩ := Multiset.mem_map.mp hall
    exact Handle.ofId_injective hsame ▸ hroot
  rw [hbuilt]
  rcases haccounted.addNode_object hmem (by rwa [nestedCategory?_code]) with
    hrefused | ⟨m, hadded, hmoved⟩
  · rw [hrefused]
    exact hw
  · rw [hadded]
    exact ⟨⟨hw.session.host, roots, hroots, hmoved⟩, hw.fit⟩

/-- What the library takes over goes from the hands of the host to a container. -/
theorem sound_takeOver {h : Handle} (hw : Sound ⟨s, cs, {h} + hs⟩) (c : Category) :
    Sound ⟨endState (Container.wrap c h .automatic s),
      gained Container.any (Container.wrap c h .automatic s) + cs,
      unmoved h (Container.wrap c h .automatic s) + hs⟩ := by
  have hsession := hw.session_held
  obtain ⟨id, roots, rfl, -, -⟩ := hsession.exists_root
  have hduty : duties ({(⟨.ofId id, .library, .reference⟩ : Container c).any} + cs) =
      {.ofId id} + duties cs := by
    rw [Multiset.singleton_add, duties_cons]
    exact congrArg (· + duties cs) (Container.duty_ofId (by simp) id .reference)
  rw [wrap_automatic hsession c id]
  refine ⟨?_, fun k hk => ?_⟩
  · rw [gained, unmoved, zero_add, hduty, add_assoc]
    exact hsession
  · rw [gained, Multiset.singleton_add] at hk
    rcases Multiset.mem_cons.mp hk with rfl | hk
    · exact ⟨rfl, fun hshared => by cases hshared⟩
    · exact hw.fit k hk

theorem session_setContainer {c : Category} (k : Container c) (slot : ResultSlot) :
    (endState (CallM.setContainer k ⟨s, slot⟩)).session = s := by
  have hresult : CallM.ofSession (ofExcept k.asResult) ⟨s, slot⟩ =
      match k.asResult with
      | .ok value => .ok value ⟨s, slot⟩
      | .error cause => .error (.failure cause) ⟨s, slot⟩ := by
    cases k.asResult <;> rfl
  show (endState (EStateM.bind (CallM.ofSession (ofExcept k.asResult)) CallM.set
    ⟨s, slot⟩)).session = s
  rw [EStateM.bind, hresult]
  cases k.asResult <;> rfl

theorem endState_dispatch {b : BufferCategory} {α : Type} {k : Container (.buffer b)}
    {kind : b.Kind} (hkind : k.elementKind? s.memory = some kind)
    (operation : (kind : b.Kind) → Buffer kind → SessionM α) :
    endState (k.dispatch operation s) = endState (operation kind ⟨k⟩ s) := by
  rw [Container.dispatch_of_kind hkind, Container.endState_reported]

theorem endState_notDispatched {b : BufferCategory} {α : Type} {k : Container (.buffer b)}
    (hkind : k.elementKind? s.memory = none)
    (operation : (kind : b.Kind) → Buffer kind → SessionM α) :
    endState (k.dispatch operation s) = s := by
  rw [Container.dispatch_of_no_kind hkind]
  rfl

/-- Every operation keeps an estate sound. -/
theorem Step.sound {v w : Estate} (hstep : Step v w) (hv : v.Sound) : w.Sound := by
  cases hstep with
  | build hbuilds =>
    obtain ⟨roots, hroots, haccounted⟩ := hv.session.accounted
    refine ⟨⟨hv.session.host, _, ?_, haccounted.builds hbuilds⟩, hv.fit⟩
    rw [Multiset.map_add, ← hroots, add_left_comm]
  | hostAddObject hlist name hkind => exact sound_hostAddObject hv hlist name hkind
  | hostAddPlain list name hkind value =>
    refine ⟨hv.session.change fun roots haccounted => ?_, hv.fit⟩
    rcases buildNode_cases _ list name _ value with hrefused | ⟨id, bytes, -, hbuilt⟩
    · rwa [hrefused]
    · rw [hbuilt]
      exact haccounted.addNode_plain (by rwa [nestedCategory?_code]) value
  | arm allocation clone conversions =>
    exact ⟨hv.session.change fun roots haccounted => haccounted.arm _ _ _, hv.fit⟩
  | make hmakes => exact sound_of_gain ((hmakes.yields hv.fit).gains _ _ hv.session) hv.fit
  | takeOver c h => exact sound_takeOver hv c
  | check k kind =>
    exact sound_of_gain (ends_intoBuffer hv.session_cons hv.fit_head kind) hv.fit_tail
  | write ht index values => exact ⟨hv.session.writeIn (hv.fit _ ht) index values, hv.fit⟩
  | @push s cs hs k hk hlibrary c held howner name =>
    -- the list is another container, so its duty is among those that are left
    have hlist : ∀ h ∈ k.duty, h ∈ duties cs + hs := by
      intro h hh
      apply Multiset.mem_add.mpr
      exact .inl (Multiset.mem_bind.mpr ⟨k.any, hk, hh⟩)
    have hpushed := Container.ends_push_container hv.session_cons hv.fit_head howner
      (hv.fit_tail _ hk) hlibrary hlist name
    exact ⟨hpushed.endState, hv.fit_tail⟩
  | pushPlain hk name value =>
    exact ⟨(Container.ends_push_plain hv.session (hv.fit _ hk) name value).endState, hv.fit⟩
  | pass k slot =>
    rw [session_setContainer]
    exact ⟨hv.session_handed, hv.fit_tail⟩
  | abandon k =>
    -- the empty container stays behind, without a duty
    have hempty : k.emptied.duty = 0 := Container.duty_eq_zero (.inr rfl)
    refine ⟨?_, fun other hother => ?_⟩
    · rw [duties_cons, Container.any, hempty, zero_add]
      exact hv.session_handed
    · rcases Multiset.mem_cons.mp hother with rfl | hother
      · exact ⟨hv.fit_head.host, hv.fit_head.shareable⟩
      · exact hv.fit_tail other hother
  | drop k =>
    have hdropped := Container.ends_drop hv.session_cons hv.fit_head
    exact ⟨hdropped.endState, hv.fit_tail⟩
  | notDispatched hkind operation =>
    rw [endState_notDispatched hkind]
    exact hv

/-- Every run keeps an estate sound. -/
theorem Run.sound {v w : Estate} (hrun : Run v w) (hv : v.Sound) : w.Sound := by
  induction hrun with
  | refl => exact hv
  | step _ last ih => exact last.sound (ih hv)
  | dispatch operation _ hkind _ ihBefore ihEffect =>
    -- the operation starts where the run before it ended, and is a run of its own
    rw [endState_dispatch hkind]
    exact ihEffect (ihBefore hv)

/-- A deed that is dispatched releases its container once, however it ends; only the one that is to
keep the container does not. -/
theorem Run.deed {u : Estate} {b : BufferCategory} {k : Container (.buffer b)} {kind : b.Kind}
    (before : Run u ⟨s, k.any ::ₘ cs, hs⟩) (hkind : k.elementKind? s.memory = some kind)
    (deed : Deed) :
    Run u ⟨endState (k.dispatch deed.perform s),
      match deed with
      | .keep => k.any ::ₘ cs
      | _ => cs, hs⟩ := by
  have hdrop : ∀ {v : Estate} {s : Session}, Run v ⟨s, k.any ::ₘ cs, hs⟩ →
      Run v ⟨endState (k.drop s), cs, hs⟩ := fun hrun => .step hrun (.drop k)
  have hwrite : ∀ values, Run ⟨s, k.any ::ₘ cs, hs⟩
      ⟨{ s with memory := (⟨k⟩ : Buffer kind).writeIn 0 values s.memory }, k.any ::ₘ cs, hs⟩ :=
    fun values => .step (.refl _)
      (.write (t := (⟨k⟩ : Buffer kind)) (Multiset.mem_cons_self _ _) 0 values)
  apply Run.dispatch deed.perform before hkind
  cases deed with
  | inspect => exact hdrop (.refl _)
  | reverse => exact hdrop (hwrite _)
  | clear => exact hdrop (hwrite _)
  | keep => exact .refl _
  | fail cause => exact hdrop (.refl _)
  | panic => exact hdrop (.refl _)

end Estate

end Custody
