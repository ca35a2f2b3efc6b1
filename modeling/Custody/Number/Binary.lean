/-!
# Binary floating point, by exact arithmetic

A floating-point number is a bit pattern of an interchange format.  Every operation first takes the
patterns apart into exact integers `± m · 2^q`, computes exactly, and rounds once to the nearest
pattern, ties to the even one.

Nothing here uses the machine's floating point, so every result can be computed inside a proof.
Patterns keep the sign and payload of a NaN: an operation hands on its first NaN operand, made
quiet.
-/

namespace Custody.Number

-- powers are those of the core library, whatever else is in scope
attribute [local instance (high)] instPowNat

/-! ## Formats -/

/-- An interchange format: the width of a pattern, and the width of its fraction field.
The exponent field and the sign take the rest. -/
structure Format where
  width : Nat
  fraction : Nat
  deriving DecidableEq, Repr

namespace Format

abbrev single : Format := ⟨32, 23⟩

abbrev double : Format := ⟨64, 52⟩

def exponentBits (f : Format) : Nat := f.width - 1 - f.fraction

/-- The exponent `q` of the least positive number, `1 · 2^q`. -/
def leastExponent (f : Format) : Int := 2 - 2 ^ (f.exponentBits - 1) - f.fraction

/-- The magnitude field of an infinity.  Smaller magnitudes are numbers, greater ones are NaNs. -/
def infinity (f : Format) : Nat := (2 ^ f.exponentBits - 1) * 2 ^ f.fraction

/-- The weight of the sign bit. -/
def signWeight (f : Format) : Nat := 2 ^ (f.width - 1)

/-- The bit that tells quiet NaNs from signalling ones. -/
def quietBit (f : Format) : Nat := 2 ^ (f.fraction - 1)

end Format

/-! ## Rounding a ratio -/

/-- `n / d` rounded to the nearest integer, an exact half to the even one. -/
def roundHalfEven (n d : Nat) : Nat :=
  let quotient := n / d
  match compare (2 * (n % d)) d with
  | .lt => quotient
  | .gt => quotient + 1
  | .eq => if quotient % 2 = 0 then quotient else quotient + 1

/-- `n / d` rounded to the nearest integer, an exact half upward. -/
def roundHalfUp (n d : Nat) : Nat := (2 * n + d) / (2 * d)

/-- The exponent `e` with `2^e ≤ n / d < 2^(e+1)`, for positive `n` and `d`. -/
def ratioExponent (n d : Nat) : Int :=
  -- the logarithms are rounded down, so their difference is too great by one at most
  let guess : Int := n.log2 - d.log2
  if n * 2 ^ (-guess).toNat < d * 2 ^ guess.toNat then guess - 1 else guess

/-- The magnitude whose number is nearest to `n / d`, ties to the even magnitude.
A ratio beyond the greatest number rounds to infinity.

Consecutive magnitudes are consecutive numbers, so the magnitude is the rounded significand plus
one fraction's worth for every step of the exponent above the least one; a carry out of the
significand lands on the next exponent by itself. -/
def Format.nearest (f : Format) (n d : Nat) : Nat :=
  if n = 0 then 0
  else
    -- the weight of the last bit that is kept; below the least exponent there are no more bits
    let q := max (ratioExponent n d - f.fraction) f.leastExponent
    let m := roundHalfEven (n * 2 ^ (-q).toNat) (d * 2 ^ q.toNat)
    min (m + (q - f.leastExponent).toNat * 2 ^ f.fraction) f.infinity

/-! ## Patterns -/

/-- A floating-point number of a format, as its bit pattern. -/
abbrev Binary (f : Format) := BitVec f.width

namespace Binary

variable {f : Format}

def negative (x : Binary f) : Bool := f.signWeight ≤ x.toNat

/-- The pattern without its sign bit. -/
def magnitude (x : Binary f) : Nat := x.toNat % f.signWeight

/-- Put a sign and a magnitude together. -/
def pack (negative : Bool) (magnitude : Nat) : Binary f :=
  BitVec.ofNat f.width (if negative then f.signWeight + magnitude else magnitude)

def isNaN (x : Binary f) : Bool := f.infinity < x.magnitude

def isInfinite (x : Binary f) : Bool := x.magnitude == f.infinity

def isZero (x : Binary f) : Bool := x.magnitude == 0

/-- The significand `m` of a number `± m · 2^q`. -/
def significand (x : Binary f) : Nat :=
  if x.magnitude < 2 ^ f.fraction then x.magnitude
  else 2 ^ f.fraction + x.magnitude % 2 ^ f.fraction

/-- The exponent `q` of a number `± m · 2^q`. -/
def exponent (x : Binary f) : Int :=
  f.leastExponent + (x.magnitude / 2 ^ f.fraction - 1 : Nat)

/-- The magnitude nearest to `m · 2^q`. -/
def nearestScaled (f : Format) (m : Nat) (q : Int) : Nat :=
  f.nearest (m * 2 ^ q.toNat) (2 ^ (-q).toNat)

/-- Set the quiet bit of a NaN. -/
def quiet (x : Binary f) : Binary f := x ||| BitVec.ofNat f.width f.quietBit

/-- The NaN of an operation that has no result: negative, quiet, without payload. -/
def invalid : Binary f := pack true (f.infinity + f.quietBit)

/-- The number nearest to an integer. -/
def ofInt (i : Int) : Binary f := pack (i < 0) (f.nearest i.natAbs 1)

/-! ## Arithmetic -/

def abs (x : Binary f) : Binary f := pack false x.magnitude

def mul (x y : Binary f) : Binary f :=
  let sign := x.negative != y.negative
  if x.isNaN then x.quiet
  else if y.isNaN then y.quiet
  else if x.isInfinite || y.isInfinite then
    if x.isZero || y.isZero then invalid else pack sign f.infinity
  else
    pack sign (nearestScaled f (x.significand * y.significand) (x.exponent + y.exponent))

def div (x y : Binary f) : Binary f :=
  let sign := x.negative != y.negative
  if x.isNaN then x.quiet
  else if y.isNaN then y.quiet
  else if x.isInfinite then
    if y.isInfinite then invalid else pack sign f.infinity
  else if y.isInfinite then pack sign 0
  else if y.isZero then
    if x.isZero then invalid else pack sign f.infinity
  else
    -- an exact quotient of integers, which is rounded once
    let q := x.exponent - y.exponent
    pack sign (f.nearest (x.significand * 2 ^ q.toNat) (y.significand * 2 ^ (-q).toNat))

/-- The significand with its sign. -/
def signedSignificand (x : Binary f) : Int :=
  if x.negative then -(x.significand : Int) else x.significand

/-- The difference.  Only `-0 - 0` gives a negative zero; every other exact zero is positive. -/
def sub (x y : Binary f) : Binary f :=
  if x.isNaN then x.quiet
  else if y.isNaN then y.quiet
  else if x.isInfinite then
    -- infinities of the same sign have no difference
    if y.isInfinite && x.negative == y.negative then invalid else x
  else if y.isInfinite then pack (!y.negative) f.infinity
  else
    -- at the smaller exponent both operands are integers, and their difference is exact
    let q := min x.exponent y.exponent
    let difference :=
      x.signedSignificand * 2 ^ (x.exponent - q).toNat
        - y.signedSignificand * 2 ^ (y.exponent - q).toNat
    if difference = 0 then pack (x.isZero && x.negative && !y.negative) 0
    else pack (difference < 0) (nearestScaled f difference.natAbs q)

/-- The integer nearest to a number, an exact half away from zero; the sign is kept. -/
def round (x : Binary f) : Binary f :=
  if x.isNaN then x.quiet
  else if x.isInfinite then x
  else if 0 ≤ x.exponent then x
  else pack x.negative (f.nearest (roundHalfUp x.significand (2 ^ (-x.exponent).toNat)) 1)

/-! ## Comparison -/

/-- Numbers and infinities are ordered as these keys are; both zeros have key 0. -/
def key (x : Binary f) : Int := if x.negative then -(x.magnitude : Int) else x.magnitude

/-- `x < y`; false if either is a NaN. -/
def lt (x y : Binary f) : Bool := !x.isNaN && !y.isNaN && decide (x.key < y.key)

/-- `x = y` as numbers: the zeros are equal, a NaN equals nothing. -/
def eq (x y : Binary f) : Bool := !x.isNaN && !y.isNaN && decide (x.key = y.key)

/-- The number within `low` and `high` that is nearest to `x`; a NaN stays as it is. -/
def clamp (x low high : Binary f) : Binary f :=
  let raised := if x.lt low then low else x
  if high.lt raised then high else raised

/-! ## Conversions -/

/-- The number without its fraction, toward zero. -/
def truncate (x : Binary f) : Int :=
  let whole : Nat := x.significand * 2 ^ x.exponent.toNat / 2 ^ (-x.exponent).toNat
  if x.negative then -(whole : Int) else whole

/-- The truncated number, held within `low` and `high`; a NaN becomes 0. -/
def toIntSaturating (x : Binary f) (low high : Int) : Int :=
  if x.isNaN then 0
  else if x.isInfinite then if x.negative then low else high
  else max low (min high x.truncate)

/-- The nearest number of another format.  A NaN keeps its sign and the leading bits of its
payload, and becomes quiet. -/
def convert (g : Format) (x : Binary f) : Binary g :=
  if x.isNaN then
    -- the payload is cut or extended at its lower end
    let payload := x.magnitude % 2 ^ f.fraction * 2 ^ g.fraction / 2 ^ f.fraction
    (pack x.negative (g.infinity + payload) : Binary g).quiet
  else if x.isInfinite then pack x.negative g.infinity
  else pack x.negative (nearestScaled g x.significand x.exponent)

end Binary

/-- A 32-bit floating-point number. -/
abbrev Single := Binary Format.single

/-- A 64-bit floating-point number. -/
abbrev Double := Binary Format.double

end Custody.Number
