import Custody.Number.Complex
import Custody.Memory.Object

/-!
# Converting numeric arrays

Every element is converted by itself, through a complex number of two 64-bit parts: read at the
source type, scaled, rounded and clipped as the method says, and written at the target type.  The
checking methods read the written element back and refuse it if it moved by more than the tolerance.

An array is converted if all its elements are.
-/

namespace Custody

open Number

-- powers are those of the core library, whatever else is in scope
attribute [local instance (high)] instPowNat

/-! ## Reading and writing one element -/

/-- The number in an integer pattern with sign. -/
private def signedNumber {n : Nat} (w : BitVec n) : Complex .double :=
  ⟨Binary.ofInt w.toInt, Binary.pack false 0⟩

/-- The number in an integer pattern without sign. -/
private def unsignedNumber {n : Nat} (w : BitVec n) : Complex .double :=
  ⟨Binary.ofInt w.toNat, Binary.pack false 0⟩

/-- The integer pattern with sign nearest to a real part, fractions dropped. -/
private def signedWord (n : Nat) (z : Complex .double) : BitVec n :=
  BitVec.ofInt n (z.re.toIntSaturating (-2 ^ (n - 1)) (2 ^ (n - 1) - 1))

/-- The integer pattern without sign nearest to a real part, fractions dropped. -/
private def unsignedWord (n : Nat) (z : Complex .double) : BitVec n :=
  BitVec.ofInt n (z.re.toIntSaturating 0 (2 ^ n - 1))

namespace ElementType

/-- The number that an element stands for. -/
def toComplex : (t : ElementType) → t.Word → Complex .double
  | int8, w | int16, w | int32, w | int64, w => signedNumber w
  | uint8, w | uint16, w | uint32, w | uint64, w => unsignedNumber w
  | real32, w => ⟨Binary.convert (f := .single) .double w, Binary.pack false 0⟩
  | real64, w => ⟨w, Binary.pack false 0⟩
  | complex32, w =>
    ⟨Binary.convert (f := .single) .double (w.setWidth 32),
      Binary.convert (f := .single) .double ((w >>> 32).setWidth 32)⟩
  | complex64, w => ⟨w.setWidth 64, (w >>> 64).setWidth 64⟩

/-- The element that stands for a number, or for the nearest one that the type has. -/
def ofComplex : (t : ElementType) → Complex .double → t.Word
  | int8, z => signedWord 8 z
  | int16, z => signedWord 16 z
  | int32, z => signedWord 32 z
  | int64, z => signedWord 64 z
  | uint8, z => unsignedWord 8 z
  | uint16, z => unsignedWord 16 z
  | uint32, z => unsignedWord 32 z
  | uint64, z => unsignedWord 64 z
  | real32, z => (z.re.convert .single : Single)
  | real64, z => z.re
  | complex32, z => (z.im.convert .single : Single) ++ (z.re.convert .single : Single)
  | complex64, z => (z.im : BitVec 64) ++ (z.re : BitVec 64)

end ElementType

/-! ## Ranges -/

/-- The greatest number of a format, seen in 64 bits. -/
def greatest (f : Format) : Double :=
  (Binary.pack false (f.infinity - 1) : Binary f).convert .double

/-- The least and the greatest number of an element kind. -/
def ArrayKind.range : ArrayKind → Double × Double
  | int8 => (Binary.ofInt (-0x80), Binary.ofInt 0x7F)
  | uint8 => (Binary.ofInt 0, Binary.ofInt 0xFF)
  | int16 => (Binary.ofInt (-0x8000), Binary.ofInt 0x7FFF)
  | uint16 => (Binary.ofInt 0, Binary.ofInt 0xFFFF)
  | int32 => (Binary.ofInt (-0x80000000), Binary.ofInt 0x7FFFFFFF)
  | uint32 => (Binary.ofInt 0, Binary.ofInt 0xFFFFFFFF)
  | int64 => (Binary.ofInt (-0x8000000000000000), Binary.ofInt 0x7FFFFFFFFFFFFFFF)
  | uint64 => (Binary.ofInt 0, Binary.ofInt 0xFFFFFFFFFFFFFFFF)
  | real32 | complex32 =>
    (Binary.pack true (greatest .single).magnitude, greatest .single)
  | real64 | complex64 =>
    (Binary.pack true (greatest .double).magnitude, greatest .double)

/-! ## Converting one element -/

private def bothParts (z : Complex .double) (g : Double → Double) : Complex .double :=
  ⟨g z.re, g z.im⟩

/-- The factor between the unit interval and the integers: up to the greatest integer, down from it,
and none where both sides are integers or neither is. -/
def scaleFactor (source target : ArrayKind) : Double :=
  match source.isInteger, target.isInteger with
  | false, true => target.range.2
  | true, false => Binary.div (f := .double) (Binary.ofInt 1) source.range.2
  | _, _ => Binary.ofInt 1

/-- What a method makes of a number before it is written. -/
def prepare (source target : ArrayKind) (method : ConvertMethod) (z : Complex .double) :
    Complex .double :=
  let scaled :=
    if method.scales then bothParts z (Binary.mul · (scaleFactor source target)) else z
  let rounded :=
    if target.isInteger && method.rounds then bothParts scaled Binary.round else scaled
  if method.clips then bothParts rounded (Binary.clamp · target.range.1 target.range.2) else rounded

/-- Whether a number and what was written for it are further apart than the tolerance. -/
def strays (tolerance : Double) (z written : Complex .double) : Bool :=
  Binary.lt (f := .double) tolerance (Binary.abs (Binary.sub written.re z.re))
    || Binary.lt (f := .double) tolerance (Binary.abs (Binary.sub written.im z.im))

/-- The converted element, unless the method checks and the element was lost. -/
def convertElement (source target : ArrayKind) (method : ConvertMethod) (tolerance : Double)
    (w : source.element.Word) : Option target.element.Word :=
  let z := prepare source target method (source.element.toComplex w)
  -- what was written is read back, for the methods that check it
  let written := target.element.ofComplex z
  if method.checks && strays tolerance z (target.element.toComplex written) then none
  else some written

/-! ## Converting an array -/

/-- The array with every element converted, if the source type is known and every element is. -/
def ArrayObject.convert? (a : ArrayObject) (target : ArrayKind) (method : ConvertMethod)
    (tolerance : Double) : Option ArrayObject := do
  -- one element that is lost refuses the whole array
  let source ← ArrayKind.ofCode? a.code
  let elements ← (a.storage.elements source.element.size a.length).mapM
    (convertElement source target method tolerance)
  return { a with
    code := target.code
    storage :=
      (Storage.allocate a.length target.element.size).writeFrom target.element.size 0 elements }

end Custody
