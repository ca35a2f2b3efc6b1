import Custody.Proofs.Estate.Run
import Custody.Proofs.Memory.Nesting

/-!
# Dismissals

A host is given a handle back when a container with a duty goes, and it counts that, whether the
handle is live or not.  So the number of these dismissals is that of the containers with a duty that
were dropped.

An action that makes a container asks the host for objects, and gives none back, except where it
drops a buffer that it could not fill; it then stops with a panic.

- `Container.dismissals_releaseIn`: a container dismisses its duty.
- `Estate.Makes.tallies`: what an action dismisses that makes a container.
-/

namespace Custody

open SessionM Memory

/-! ## Handles that are given back -/

/-- How often a handle was given back, live or not. -/
def Memory.dismissals (m : Memory) : Nat := m.releases + m.counters.doubleFrees

namespace Memory

variable {m : Memory}

theorem dismissals_congr {m' : Memory} (h : m'.counters = m.counters) :
    m'.dismissals = m.dismissals := by
  rw [dismissals, releases, h, dismissals, releases]

theorem dismissals_free (m : Memory) (h : Handle) : (m.free h).dismissals = m.dismissals + 1 := by
  cases hlive : m.isLive h with
  | false =>
    rw [free_of_not_live hlive]
    rfl
  | true =>
    obtain ⟨id, rfl, hid⟩ := isLive_iff.mp hlive
    rw [dismissals, dismissals, releases_free hid, counters_free hid]
    exact Nat.add_right_comm _ 1 _

theorem dismissals_disown (m : Memory) (h : Handle) :
    (m.disown h).dismissals = m.dismissals + 1 := by
  cases hlive : m.isLive h with
  | false =>
    rw [disown_of_not_live hlive]
    rfl
  | true =>
    obtain ⟨id, rfl, hid⟩ := isLive_iff.mp hlive
    rw [dismissals, dismissals, releases_disown hid, counters_disown hid]
    exact Nat.add_right_comm _ 1 _

/-! ## Requests -/

/-- The host is given nothing back while it answers. -/
def Retains (request : Memory → Option Handle × Memory) : Prop :=
  ∀ m, (request m).2.dismissals = m.dismissals

theorem retains_allocate (object : Option Object) : Retains (·.allocate object) := by
  intro m
  simp only [allocate]
  split
  · rfl
  · cases object <;> rfl

theorem retains_allocateImage (request : ImageRequest) : Retains (·.allocateImage request) := by
  intro m
  simp only [allocateImage]
  split
  · rfl
  · exact retains_allocate _ m

theorem retains_issueConverted (object : Memory → Option Object) :
    Retains fun m => m.issueConverted (object m) := by
  intro m
  simp only [issueConverted]
  split
  · rfl
  · cases object m <;> rfl

theorem retains_cloneIf (accepts : Object → Bool) (h : Handle) : Retains (·.cloneIf accepts h) := by
  intro m
  simp only [cloneIf]
  split
  · rfl
  · split
    case h_1 id object hid hfound =>
      -- however far a copy comes, it changes no counts
      have hcopied : (m.copy id).2.dismissals = m.dismissals := by
        have hgrows : m.Grows ∅ (m.copy id).2 := (rises_copyWithin _).grows id m
        have hcounters : (m.copy id).2.counters = m.counters :=
          (congrArg counters hgrows.elsewhere :)
        exact dismissals_congr hcounters
      rcases hresult : m.copy id with ⟨_ | made, m'⟩
      · rwa [hresult] at hcopied
      · rwa [hresult] at hcopied
    case h_2 => rfl

end Memory

/-- A container gives back what it has the duty to release. -/
theorem Container.dismissals_releaseIn {c : Category} {k : Container c} (hfit : k.Fit)
    (m : Memory) :
    (k.releaseIn m).dismissals = m.dismissals + k.duty.card := by
  rcases Container.releaseIn_cases hfit m with ⟨hduty, hsame⟩ | ⟨hduty, hfreed | hdisowned⟩
  · rw [hsame, hduty, Multiset.card_zero, Nat.add_zero]
  · rw [hfreed, hduty, Multiset.card_singleton, dismissals_free]
  · rw [hdisowned, hduty, Multiset.card_singleton, dismissals_disown]

/-! ## Actions -/

variable {α β : Type} {s : Session} {c : Category}

/-- How many containers an action drops that makes one: a buffer that it cannot fill. -/
def dropped : EStateM.Result Stop Session α → Nat
  | .error .panic _ => 1
  | _ => 0

/-- The action gives back nothing but what it drops. -/
def Tallies (x : SessionM α) (s : Session) : Prop :=
  (endState (x s)).memory.dismissals = s.memory.dismissals + dropped (x s)

namespace Tallies

theorem pure (a : α) (s : Session) : Tallies (Pure.pure a) s := rfl

theorem fail (cause : Failure) (s : Session) : Tallies (SessionM.fail cause : SessionM α) s := rfl

/-- The rule for a sequence. -/
theorem bind {x : SessionM α} {f : α → SessionM β} (h : Tallies x s)
    (hf : ∀ a s', x s = .ok a s' → Tallies (f a) s') : Tallies (x >>= f) s := by
  unfold Tallies at h ⊢
  cases hresult : x s with
  | ok a s' =>
    rw [hresult] at h
    rw [bind_of_ok hresult, hf a s' hresult]
    exact congrArg (· + dropped (f a s')) h
  | error stop s' =>
    rw [hresult] at h
    rw [bind_of_error hresult]
    cases stop with
    | failure cause => exact h
    | panic => exact h

theorem check {e : Except Failure β} {f : β → SessionM α} (hf : ∀ b, Tallies (f b) s) :
    Tallies (ofExcept e >>= f) s := by
  cases e with
  | ok b => exact hf b
  | error cause => exact .fail cause s

/-- The rule for a request. -/
theorem request {request : Memory → Option Handle × Memory} (h : Retains request)
    {f : Option Handle → SessionM α} (hf : ∀ answer s', Tallies (f answer) s') :
    Tallies (onMemory request >>= f) s :=
  bind (h s.memory) fun answer s' _ => hf answer s'

/-- The installed host is asked. -/
theorem of_host {f : Host → SessionM α} (hs : s.host = some .reference)
    (h : Tallies (f .reference) s) : Tallies (installedHost >>= f) s := by
  rwa [Tallies, bind_of_ok (installedHost_apply hs)]

end Tallies

theorem tallies_own (c : Category) (host : Host) (cause : Failure)
    {request : Memory → Option Handle × Memory} (h : Retains request) :
    Tallies (Container.own c host cause request) s := by
  refine .request h ?_
  rintro (_ | h) s'
  · exact .fail cause s'
  · exact .pure _ s'

theorem tallies_newArray {c : ArrayCategory} (kind : (BufferCategory.array c).Kind)
    (extents : List Int) (hs : s.host = some .reference) :
    Tallies (Container.newArray c kind extents) s :=
  .of_host hs (tallies_own _ _ _ (retains_allocate _))

theorem tallies_newImage (request : ImageRequest) (hs : s.host = some .reference) :
    Tallies (Container.newImage request) s :=
  .of_host hs (tallies_own _ _ _ (retains_allocateImage request))

theorem tallies_newList (hs : s.host = some .reference) : Tallies Container.newList s :=
  .of_host hs (tallies_own _ _ _ (retains_allocate _))

theorem tallies_copyHandle (c : Category) (h : Handle) :
    Tallies (Container.copyHandle c .reference h) s := by
  refine .request (retains_cloneIf (copiedAs c) h) ?_
  rintro (_ | copied) s'
  · exact .fail _ s'
  · exact .pure _ s'

theorem tallies_tryClone {k : Container c} (hfit : k.Fit) : Tallies k.tryClone s := by
  refine .check fun h => ?_
  rw [hfit.host]
  exact (tallies_copyHandle c h).bind fun copied s' _ => .pure _ s'

theorem tallies_convertArray {k : Container .numeric} (hfit : k.Fit) (target : ArrayKind)
    (method : ConvertMethod) (tolerance : Number.Double) :
    Tallies (k.convertArray target method tolerance) s := by
  refine .check fun h => ?_
  rw [hfit.host]
  exact tallies_own _ _ _ (retains_issueConverted _)

theorem tallies_convertImage {k : Container .image} (hfit : k.Fit) (target : PixelKind)
    (interleaved : Bool) : Tallies (k.convertImage target interleaved) s := by
  refine .check fun h => ?_
  rw [hfit.host]
  exact tallies_own _ _ _ (retains_issueConverted _)

theorem tallies_wrap (c : Category) (h : Handle) (passing : Passing)
    (hs : s.host = some .reference) : Tallies (Container.wrap c h passing) s := by
  refine .of_host hs (.check fun adopted => ?_)
  split
  · exact .fail _ s
  · cases passing with
    | automatic | manual | constant => exact .pure _ s
    | shared => exact (tallies_copyHandle c h).bind fun copied s' _ => .pure _ s'

/-! ## Buffers of a known kind -/

section Buffer

variable {b : BufferCategory} {kind : b.Kind}

theorem tallies_buffer {x : SessionM (Container (.buffer b))} (h : Tallies x s) :
    Tallies (do return (⟨← x⟩ : Buffer kind)) s :=
  h.bind fun _ s' _ => .pure _ s'

theorem Buffer.dismissals_writeIn {t : Buffer kind} (hhost : t.container.host = .reference)
    (index : Nat) (values : List kind.element.Word) (m : Memory) :
    (t.writeIn index values m).dismissals = m.dismissals := by
  rcases t.writeIn_cases hhost index values m with hsame | ⟨id, _, storage, -, -, hwritten⟩
  · rw [hsame]
  · rw [hwritten]
    exact dismissals_congr (counters_setStorage m _ _)

/-- A buffer that cannot be filled is dropped. -/
theorem tallies_fill {t : Buffer kind} (hfit : t.container.Fit) (hduty : t.container.duty.card = 1)
    (values : List kind.element.Word) : Tallies (t.fill values) s := by
  by_cases hfills : t.size s.memory = values.length
  · have hfilled : t.fill values s =
        .ok t { s with memory := t.writeIn 0 values s.memory } := by
      rw [Buffer.fill, bind_of_ok (memory_apply s), if_pos hfills]
      rfl
    rw [Tallies, hfilled]
    exact Buffer.dismissals_writeIn hfit.host 0 values s.memory
  · have hdropped : t.fill values s =
        .error .panic { s with memory := t.container.releaseIn s.memory } := by
      rw [Buffer.fill, bind_of_ok (memory_apply s), if_neg hfills]
      rfl
    rw [Tallies, hdropped, dropped, ← hduty]
    exact Container.dismissals_releaseIn hfit s.memory

/-- A buffer that is filled as soon as it is made. -/
theorem tallies_filled {P : Object → Prop} {x : SessionM (Container (.buffer b))}
    (hs : s.host = some .reference) (hprocures : Procures P x) (h : Tallies x s)
    (values : List kind.element.Word) :
    Tallies ((do return (⟨← x⟩ : Buffer kind)) >>= (·.fill values)) s := by
  refine (tallies_buffer h).bind fun t s' ht => ?_
  -- what the host gave is the library's, and has to be released
  obtain ⟨id, rfl⟩ : ∃ id, t = ⟨⟨.ofId id, .library, .reference⟩⟩ := by
    have hmade := hprocures s hs
    unfold Ends at hmade
    cases hresult : x s with
    | ok k s'' =>
      rw [hresult] at hmade
      obtain ⟨id, _, rfl, -⟩ := hmade
      rw [bind_of_ok hresult] at ht
      cases ht
      exact ⟨id, rfl⟩
    | error stop s'' =>
      rw [bind_of_error hresult] at ht
      cases ht
  refine tallies_fill ⟨rfl, by simp⟩ ?_ values
  rw [Container.duty_ofId (by simp), Multiset.card_singleton]

end Buffer

theorem tallies_arrayOf {c : ArrayCategory} (kind : (BufferCategory.array c).Kind)
    (extents : List Int) (values : List kind.element.Word) (hs : s.host = some .reference) :
    Tallies (Buffer.arrayOf kind extents values) s :=
  .check fun _ =>
    tallies_filled hs (procures_newArray kind extents) (tallies_newArray kind extents hs) values

theorem tallies_imageOf (kind : BufferCategory.image.Kind) (extents : List Int)
    (colorSpace : ColorSpace) (interleaved : Bool) (values : List kind.element.Word)
    (hs : s.host = some .reference) :
    Tallies (Buffer.imageOf kind extents colorSpace interleaved values) s := by
  refine .check fun _ => ?_
  split
  · exact tallies_filled hs (procures_newImage _) (tallies_newImage _ hs) values
  · exact tallies_filled hs (procures_newImage _) (tallies_newImage _ hs) values
  · exact .fail _ s

/-- An action that makes a container gives back nothing but a buffer that it cannot fill. -/
theorem Estate.Makes.tallies {cs : Multiset AnyContainer} {given : α → AnyContainer}
    {x : SessionM α} (h : Makes cs given x) (hs : s.host = some .reference)
    (hfit : ∀ k ∈ cs, k.2.Fit) : Tallies x s := by
  cases h with
  | newArray kind extents => exact tallies_newArray kind extents hs
  | newImage request => exact tallies_newImage request hs
  | newList => exact tallies_newList hs
  | newTypedArray kind extents => exact tallies_buffer (tallies_newArray kind extents hs)
  | newTypedImage => exact tallies_buffer (tallies_newImage _ hs)
  | arrayOf kind extents values => exact tallies_arrayOf kind extents values hs
  | imageOf kind extents colorSpace interleaved values =>
    exact tallies_imageOf kind extents colorSpace interleaved values hs
  | clone hk => exact tallies_tryClone (hfit _ hk)
  | cloneTyped ht => exact tallies_buffer (tallies_tryClone (hfit _ ht))
  | convertArray hk target method tolerance =>
    exact tallies_convertArray (hfit _ hk) target method tolerance
  | convertImage hk target interleaved => exact tallies_convertImage (hfit _ hk) target interleaved
  | convertPixels hk target => exact tallies_convertImage (hfit _ hk) target _
  | convertTypedArray ht target method tolerance =>
    exact tallies_buffer (tallies_convertArray (hfit _ ht) target method tolerance)
  | convertTypedImage ht target interleaved =>
    exact tallies_buffer (tallies_convertImage (hfit _ ht) target interleaved)
  | wrap c h hpassing => exact tallies_wrap c h _ hs

end Custody
