import Custody.Proofs.Container.Make

/-!
# Actions that gain a container

An action that makes a container either adds the duty of the container to those at hand, or stops
and leaves them as they were.  A container that is found not to be of a kind is dropped on the way
out.
-/

namespace Custody

open SessionM Memory

/-- The action gives a container with its duty, or stops without any. -/
def Gains {α : Type} (given : α → AnyContainer) (x : SessionM α) : Prop :=
  ∀ s handles, s.Sound handles →
    Ends x s (fun a s' => (given a).2.Fit ∧ s'.Sound ((given a).2.duty + handles))
      fun s' => s'.Sound handles

variable {α : Type} {s s' : Session} {handles : Multiset Handle}

/-- What was supplied is one handle more. -/
theorem Session.Sound.supplied (hs : s.Sound handles) {supplied : Option Nat}
    (hsupplied : s.Supplied supplied s') :
    s'.Sound ((supplied.toList : Multiset Nat).map Handle.ofId + handles) := by
  obtain ⟨roots, rfl, haccounted⟩ := hs.accounted
  exact ⟨hsupplied.host, supplied.toList + roots, by rw [Multiset.map_add],
    hsupplied.accounted roots haccounted⟩

theorem Yields.gains {given : α → AnyContainer} {x : SessionM α} (h : Yields given x) :
    Gains given x := by
  intro s handles hs
  refine (h s hs.host).imp ?_ fun s' hsupplied => ?_
  · rintro a s' ⟨supplied, htakes, hsupplied⟩
    rw [htakes.duty_eq]
    exact ⟨htakes.fit, hs.supplied hsupplied⟩
  · have hsound := hs.supplied hsupplied
    rwa [Option.toList_none, Multiset.coe_nil, Multiset.map_zero, zero_add] at hsound

/-! ## Wrapped handles -/

/-- A handle that the library takes over stays as it is; from now on the library has the duty. -/
theorem wrap_automatic (hs : s.Sound handles) (c : Category) (id : Nat) :
    Container.wrap c (.ofId id) .automatic s = .ok ⟨.ofId id, .library, .reference⟩ s := by
  rw [Container.wrap, bind_of_ok (installedHost_apply hs.host)]
  have hadopt : Container.adopt c .reference (.ofId id) Passing.automatic.owner =
      .ok ⟨.ofId id, .library, .reference⟩ := by
    simp [Container.adopt, Handle.isNull, Handle.ofId, addressOf, Passing.owner]
  rw [Container.wrapFor, hadopt]
  rfl

/-! ## Buffers of a known kind -/

section Buffer

variable {b : BufferCategory} {kind : b.Kind}

/-- A container of the kind is the buffer. -/
theorem Container.eq_of_asBuffer {k : Container (.buffer b)} {m : Memory} {t : Buffer kind}
    (h : k.asBuffer kind m = .ok t) : t = ⟨k⟩ := by
  unfold Container.asBuffer at h
  cases hrequire : k.require with
  | error cause =>
    rw [hrequire] at h
    cases h
  | ok handle =>
    simp only [hrequire, bind, Except.bind] at h
    split at h
    · split at h
      · exact (Except.ok.inj h).symm
      · cases h
    · cases h

/-- A container that turns out not to be of the kind is dropped. -/
theorem ends_intoBuffer {k : Container (.buffer b)} (hs : s.Sound (k.duty + handles)) (hfit : k.Fit)
    (kind : b.Kind) :
    Ends (k.intoBuffer kind) s
      (fun t s' => t.any.2.Fit ∧ s'.Sound (t.any.2.duty + handles)) fun s' => s'.Sound handles := by
  apply Ends.step (memory_apply s)
  cases hbuffer : k.asBuffer kind s.memory with
  | ok t =>
    -- the buffer is the container itself, so its duty stays what it was
    obtain rfl := Container.eq_of_asBuffer hbuffer
    exact ⟨hfit, hs⟩
  | error cause => exact (Container.ends_drop hs hfit).bind fun _ _ hs' => hs'

/-- Writing into a buffer moves nothing. -/
theorem Session.Sound.writeIn (hs : s.Sound handles) {t : Buffer kind} (hfit : t.container.Fit)
    (index : Nat) (values : List kind.element.Word) :
    { s with memory := t.writeIn index values s.memory }.Sound handles :=
  hs.change fun _ => Buffer.accounted_writeIn hfit.host index values

end Buffer

end Custody
