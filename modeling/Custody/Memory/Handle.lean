import Custody.Number.Complex
import Custody.Text.Utf8

/-!
# Handles and payloads

A handle is an address by which the host names one of its objects; a node handle names a node of a
list.  The `n`-th object ever issued has the address `16 · (n + 1)`, so the null address and every
address that is no multiple of 16 name nothing.

A payload is the content of one argument, of one result, or of one list node: a slot of two 64-bit
words, or a text.  The slot does not say how it is to be read, so every reading is defined on every
payload: reading it as something else than was stored reinterprets its words.
-/

namespace Custody

open Number Text

/-! ## Handles -/

/-- The address of an object of the host. -/
structure Handle where
  addr : Nat
  deriving DecidableEq, Repr

/-- The address of a node of a list. -/
structure NodeHandle where
  addr : Nat
  deriving DecidableEq, Repr

/-- The address of the `id`-th thing issued. -/
def addressOf (id : Nat) : Nat := 16 * (id + 1)

/-- Which of the things issued an address names, if it can name one. -/
def idOfAddress? (addr : Nat) : Option Nat :=
  if addr = 0 ∨ addr % 16 ≠ 0 then none else some (addr / 16 - 1)

@[simp] theorem idOfAddress?_addressOf (id : Nat) : idOfAddress? (addressOf id) = some id := by
  simp [idOfAddress?, addressOf]

theorem idOfAddress?_eq_some_iff {addr id : Nat} :
    idOfAddress? addr = some id ↔ addr = addressOf id := by
  constructor
  · intro h
    simp only [idOfAddress?] at h
    split at h
    · simp at h
    · simp only [Option.some.injEq] at h
      simp only [addressOf]
      omega
  · rintro rfl
    simp

namespace Handle

def null : Handle := ⟨0⟩

/-- The handle of the `id`-th object. -/
def ofId (id : Nat) : Handle := ⟨addressOf id⟩

/-- Which object a handle names, if it can name one. -/
def id? (h : Handle) : Option Nat := idOfAddress? h.addr

def isNull (h : Handle) : Bool := h.addr == 0

@[simp] theorem id?_ofId (id : Nat) : (ofId id).id? = some id := idOfAddress?_addressOf id

theorem id?_eq_some_iff {h : Handle} {id : Nat} : h.id? = some id ↔ h = ofId id := by
  cases h
  simp [id?, ofId, idOfAddress?_eq_some_iff]

end Handle

namespace NodeHandle

def null : NodeHandle := ⟨0⟩

def ofId (id : Nat) : NodeHandle := ⟨addressOf id⟩

def id? (h : NodeHandle) : Option Nat := idOfAddress? h.addr

def isNull (h : NodeHandle) : Bool := h.addr == 0

@[simp] theorem id?_ofId (id : Nat) : (ofId id).id? = some id := idOfAddress?_addressOf id

end NodeHandle

/-! ## Payloads -/

/-- What is stored in one slot. -/
inductive Payload where
  | boolean (value : Bool)
  | integer (value : Int64)
  | real (value : Double)
  | complex (value : Complex .double)
  | text (bytes : Bytes)
  | handle (h : Handle)
  deriving DecidableEq

namespace Payload

/-- The slot that nothing was stored in. -/
def empty : Payload := .complex .zero

/-- The lower word.  The address of a text is not known, and reads as 0. -/
def low : Payload → BitVec 64
  | boolean value => if value then 1 else 0
  | integer value => value.toBitVec
  | real value => value
  | complex value => value.re
  | text _ => 0
  | handle h => BitVec.ofNat 64 h.addr

/-- The upper word; only complex numbers use it. -/
def high : Payload → BitVec 64
  | complex value => value.im
  | _ => 0

/-- Read as a truth value: whether any of the lower 32 bits is set. -/
def asBoolean (p : Payload) : Bool := p.low.setWidth 32 != 0

def asInteger (p : Payload) : Int64 := Int64.ofBitVec p.low

def asReal (p : Payload) : Double := p.low

def asComplex (p : Payload) : Complex .double := ⟨p.low, p.high⟩

def asHandle : Payload → Handle
  | handle h => h
  | p => ⟨p.low.toNat⟩

/-- Read as a text; only a text is one. -/
def asText? : Payload → Option Bytes
  | text bytes => some bytes
  | _ => none

end Payload

end Custody
