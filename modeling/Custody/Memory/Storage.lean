/-!
# Element storage

The elements of a buffer lie one after another in bytes, each in little-endian order.  Storage is
given out in whole words of eight bytes, so the last word can end in padding.

Storage does not know the type of its elements: reading and writing name the size of an element.
-/

namespace Custody

structure Storage where
  bytes : Array UInt8
  deriving DecidableEq

namespace Storage

/-! ## Allocation -/

/-- The number of eight-byte words that hold `length` elements of `size` bytes. -/
def words (length size : Nat) : Nat := (length * size + 7) / 8

/-- Zeroed storage for `length` elements of `size` bytes. -/
def allocate (length size : Nat) : Storage := ⟨Array.replicate (8 * words length size) 0⟩

def size (s : Storage) : Nat := s.bytes.size

/-! ## Bytes -/

/-- The byte at an offset, zero beyond the end. -/
def byte (s : Storage) (offset : Nat) : UInt8 := s.bytes.getD offset 0

/-- Replace the byte at an offset; beyond the end there is none to replace. -/
def setByte (s : Storage) (offset : Nat) (value : UInt8) : Storage :=
  ⟨s.bytes.setIfInBounds offset value⟩

/-- The value of `width` bytes from `offset` on, the first byte counting least. -/
def value (s : Storage) (offset : Nat) : (width : Nat) → Nat
  | 0 => 0
  | width + 1 => (s.byte offset).toNat + 256 * s.value (offset + 1) width

/-- Replace `width` bytes from `offset` on by those of a value. -/
def setValue (s : Storage) (offset : Nat) : (width : Nat) → Nat → Storage
  | 0, _ => s
  | width + 1, n => (s.setByte offset (UInt8.ofNat (n % 256))).setValue (offset + 1) width (n / 256)

/-! ## Elements -/

/-- The element at an index, of `width` bytes. -/
def read (s : Storage) (width index : Nat) : BitVec (8 * width) :=
  BitVec.ofNat (8 * width) (s.value (index * width) width)

/-- Replace the element at an index. -/
def write (s : Storage) (width index : Nat) (element : BitVec (8 * width)) : Storage :=
  s.setValue (index * width) width element.toNat

/-- The first `count` elements. -/
def elements (s : Storage) (width count : Nat) : List (BitVec (8 * width)) :=
  (List.range count).map (s.read width)

/-- Replace elements from an index on. -/
def writeFrom (s : Storage) (width : Nat) (index : Nat) : List (BitVec (8 * width)) → Storage
  | [] => s
  | element :: rest => (s.write width index element).writeFrom width (index + 1) rest

/-- How many elements of a size the storage has room for. -/
def capacity (s : Storage) (width : Nat) : Nat := s.size / width

end Storage

end Custody
