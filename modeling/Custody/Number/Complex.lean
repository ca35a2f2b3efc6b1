import Custody.Number.Shortest

/-!
# Complex numbers

A complex number is a pair of floating-point numbers of one format, real part first.
-/

namespace Custody.Number

/-- A complex number with parts of format `f`. -/
structure Complex (f : Format) where
  re : Binary f
  im : Binary f
  deriving DecidableEq

namespace Complex

variable {f : Format}

def zero : Complex f := ⟨Binary.pack false 0, Binary.pack false 0⟩

/-- Equality of both parts as numbers: `-0` equals `0`, and a NaN equals nothing. -/
def eq (x y : Complex f) : Bool := x.re.eq y.re && x.im.eq y.im

/-- The parts in text, joined as a sum. -/
def text (x : Complex f) : String := x.re.text ++ " + " ++ x.im.text ++ "i"

end Complex

end Custody.Number
