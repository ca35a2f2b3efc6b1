/-!
# Elements of buffers

A buffer is filled with elements of one machine type.  Which one, it says by a code, and each family
of buffers has codes of its own: the same machine type can occur in several families, under
different codes and names.

A code outside the family's list is no error by itself: a host may be newer than the library.
-/

namespace Custody

/-! ## Machine types -/

/-- The machine types that elements can have. -/
inductive ElementType where
  | int8 | uint8 | int16 | uint16 | int32 | uint32 | int64 | uint64
  | real32 | real64 | complex32 | complex64
  deriving DecidableEq, Repr

namespace ElementType

def all : List ElementType :=
  [int8, uint8, int16, uint16, int32, uint32, int64, uint64, real32, real64, complex32, complex64]

/-- The number of bytes of an element. -/
def size : ElementType → Nat
  | int8 | uint8 => 1
  | int16 | uint16 => 2
  | int32 | uint32 | real32 => 4
  | int64 | uint64 | real64 | complex32 => 8
  | complex64 => 16

/-- An element of a machine type, as its bits. -/
abbrev Word (t : ElementType) := BitVec (8 * t.size)

/-- The element that fresh storage is filled with. -/
def zero (t : ElementType) : t.Word := 0

end ElementType

/-! ## Elements of tensors -/

/-- The elements a tensor can have. -/
inductive TensorKind where
  | integer | real | complex
  deriving DecidableEq, Repr

namespace TensorKind

/-- Every kind, in the order of the codes. -/
def all : List TensorKind := [integer, real, complex]

def code : TensorKind → Int
  | integer => 2
  | real => 3
  | complex => 4

def ofCode? (code : Int) : Option TensorKind := all.find? (·.code == code)

def element : TensorKind → ElementType
  | integer => .int64
  | real => .real64
  | complex => .complex64

def name : TensorKind → String
  | integer => "Integer"
  | real => "Real"
  | complex => "Complex"

def label (k : TensorKind) : String := k.name

end TensorKind

/-! ## Elements of numeric arrays -/

/-- The elements a numeric array can have. -/
inductive ArrayKind where
  | int8 | uint8 | int16 | uint16 | int32 | uint32 | int64 | uint64
  | real32 | real64 | complex32 | complex64
  deriving DecidableEq, Repr

namespace ArrayKind

/-- Every kind, in the order of the codes. -/
def all : List ArrayKind :=
  [int8, uint8, int16, uint16, int32, uint32, int64, uint64, real32, real64, complex32, complex64]

def code : ArrayKind → Int
  | int8 => 1
  | uint8 => 2
  | int16 => 3
  | uint16 => 4
  | int32 => 5
  | uint32 => 6
  | int64 => 7
  | uint64 => 8
  | real32 => 9
  | real64 => 10
  | complex32 => 11
  | complex64 => 12

def ofCode? (code : Int) : Option ArrayKind := all.find? (·.code == code)

def element : ArrayKind → ElementType
  | int8 => .int8
  | uint8 => .uint8
  | int16 => .int16
  | uint16 => .uint16
  | int32 => .int32
  | uint32 => .uint32
  | int64 => .int64
  | uint64 => .uint64
  | real32 => .real32
  | real64 => .real64
  | complex32 => .complex32
  | complex64 => .complex64

def name : ArrayKind → String
  | int8 => "Int8"
  | uint8 => "UInt8"
  | int16 => "Int16"
  | uint16 => "UInt16"
  | int32 => "Int32"
  | uint32 => "UInt32"
  | int64 => "Int64"
  | uint64 => "UInt64"
  | real32 => "Real32"
  | real64 => "Real64"
  | complex32 => "Complex32"
  | complex64 => "Complex64"

def label : ArrayKind → String
  | int8 => "Integer8"
  | uint8 => "UnsignedInteger8"
  | int16 => "Integer16"
  | uint16 => "UnsignedInteger16"
  | int32 => "Integer32"
  | uint32 => "UnsignedInteger32"
  | int64 => "Integer64"
  | uint64 => "UnsignedInteger64"
  | real32 => "Real32"
  | real64 => "Real64"
  | complex32 => "ComplexReal32"
  | complex64 => "ComplexReal64"

def isSigned : ArrayKind → Bool
  | int8 | int16 | int32 | int64 => true
  | _ => false

def isUnsigned : ArrayKind → Bool
  | uint8 | uint16 | uint32 | uint64 => true
  | _ => false

def isInteger (k : ArrayKind) : Bool := k.isSigned || k.isUnsigned

def isFloating : ArrayKind → Bool
  | real32 | real64 => true
  | _ => false

def isComplex : ArrayKind → Bool
  | complex32 | complex64 => true
  | _ => false

end ArrayKind

/-! ## Channels of images -/

/-- The values an image channel can have. -/
inductive PixelKind where
  /-- One bit per channel, kept in a signed byte. -/
  | bit
  | byte
  | bit16
  | real32
  | real64
  deriving DecidableEq, Repr

namespace PixelKind

/-- Every kind, in the order of the codes. -/
def all : List PixelKind := [bit, byte, bit16, real32, real64]

def code : PixelKind → Int
  | bit => 1
  | byte => 2
  | bit16 => 3
  | real32 => 4
  | real64 => 5

def ofCode? (code : Int) : Option PixelKind := all.find? (·.code == code)

def element : PixelKind → ElementType
  | bit => .int8
  | byte => .uint8
  | bit16 => .uint16
  | real32 => .real32
  | real64 => .real64

def name : PixelKind → String
  | bit => "Bit"
  | byte => "Byte"
  | bit16 => "Bit16"
  | real32 => "Real32"
  | real64 => "Real64"

def label : PixelKind → String
  | bit => "Bit"
  | byte => "Byte"
  | bit16 => "Bit16"
  | real32 => "Real32"
  | real64 => "Real"

end PixelKind

end Custody
