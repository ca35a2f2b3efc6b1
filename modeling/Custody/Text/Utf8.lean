/-!
# Texts as bytes

A text crosses between library and host as its UTF-8 bytes, ended by a NUL.  So a text that holds a
NUL cannot cross, and bytes that are not well-formed UTF-8 are no text.

`encode` writes the bytes and refuses a NUL; `decode` reads them back one octet at a time and, where
it cannot, says which octets are at fault.
-/

namespace Custody.Text

/-- The bytes of a text as the host stores them, without the NUL at the end. -/
abbrev Bytes := List UInt8

/-! ## What can be wrong -/

/-- Why a text cannot cross. -/
inductive Flaw where
  /-- The text holds a NUL byte at this position. -/
  | nul (position : Nat)
  /-- From this index on, the first `length` octets start no character. -/
  | malformed (index : Nat) (length : Nat)
  /-- The octets end within the character that starts at this index. -/
  | truncated (index : Nat)
  /-- There are no bytes at all, not even an ending NUL. -/
  | missing
  deriving DecidableEq, Repr

/-- The wording of a flaw. -/
def Flaw.reason : Flaw → String
  | .nul position => "nul byte found in provided data at position: " ++ Nat.repr position
  | .malformed index length =>
    "invalid utf-8 sequence of " ++ Nat.repr length ++ " bytes from index " ++ Nat.repr index
  | .truncated index => "incomplete utf-8 byte sequence from index " ++ Nat.repr index
  | .missing => "null string pointer"

/-! ## Writing -/

/-- The UTF-8 bytes of a text. -/
def utf8 (s : String) : Bytes := s.toList.flatMap String.utf8EncodeChar

/-- The bytes of a text without NUL; a NUL is refused with its position. -/
def encode (s : String) : Except Flaw Bytes :=
  match (utf8 s).findIdx? (· == 0) with
  | some position => .error (.nul position)
  | none => .ok (utf8 s)

/-! ## Reading -/

/-- A character that has begun and is not complete. -/
structure Pending where
  /-- Index of its first octet. -/
  start : Nat
  /-- How many octets are still owed, at least one. -/
  owed : Nat
  /-- The least value the next octet may have. -/
  low : UInt8
  /-- The greatest value the next octet may have. -/
  high : UInt8
  /-- The bits read so far. -/
  bits : Nat
  deriving DecidableEq, Repr

/-- What a first octet begins: a whole character, or a character that owes further octets.

The bounds on the second octet keep out overlong forms, surrogates and values above U+10FFFF. -/
def lead (start : Nat) (b : UInt8) : Option (Char ⊕ Pending) :=
  if b ≤ 0x7F then some (.inl (Char.ofNat b.toNat))
  -- 0xC0 and 0xC1 could only begin overlong forms
  else if 0xC2 ≤ b ∧ b ≤ 0xDF then some (.inr ⟨start, 1, 0x80, 0xBF, b.toNat - 0xC0⟩)
  else if b = 0xE0 then some (.inr ⟨start, 2, 0xA0, 0xBF, 0⟩)
  -- surrogates would begin at 0xED 0xA0
  else if b = 0xED then some (.inr ⟨start, 2, 0x80, 0x9F, 0xD⟩)
  else if 0xE1 ≤ b ∧ b ≤ 0xEF then some (.inr ⟨start, 2, 0x80, 0xBF, b.toNat - 0xE0⟩)
  else if b = 0xF0 then some (.inr ⟨start, 3, 0x90, 0xBF, 0⟩)
  else if 0xF1 ≤ b ∧ b ≤ 0xF3 then some (.inr ⟨start, 3, 0x80, 0xBF, b.toNat - 0xF0⟩)
  -- nothing lies above U+10FFFF
  else if b = 0xF4 then some (.inr ⟨start, 3, 0x80, 0x8F, 4⟩)
  else none

/-- The characters of the octets from `index` on, given the character that is under way. -/
def decodeFrom (index : Nat) : Option Pending → Bytes → Except Flaw (List Char)
  | none, [] => .ok []
  | some p, [] => .error (.truncated p.start)
  | none, b :: rest =>
    match lead index b with
    | none => .error (.malformed index 1)
    | some (.inl c) => (decodeFrom (index + 1) none rest).map (c :: ·)
    | some (.inr p) => decodeFrom (index + 1) (some p) rest
  | some p, b :: rest =>
    if p.low ≤ b ∧ b ≤ p.high then
      -- each octet after the first carries six bits
      let bits := p.bits * 64 + (b.toNat - 0x80)
      if p.owed ≤ 1 then (decodeFrom (index + 1) none rest).map (Char.ofNat bits :: ·)
      else decodeFrom (index + 1) (some ⟨p.start, p.owed - 1, 0x80, 0xBF, bits⟩) rest
    else .error (.malformed p.start (index - p.start))

/-- The text whose UTF-8 form is these bytes. -/
def decode (bytes : Bytes) : Except Flaw String :=
  (decodeFrom 0 none bytes).map String.ofList

end Custody.Text
