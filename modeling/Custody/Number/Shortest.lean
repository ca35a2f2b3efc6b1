import Custody.Number.Binary

/-!
# The shortest decimal that reads back

The reals that round to a given number `m · 2^q` form an interval around it, its ends included
exactly when `m` is even.  The shortest decimal is the one with the fewest digits in that interval.

The search goes through ever finer decimal grids.  If any point of a grid lies in the interval, so
does one of the number's two neighbours on that grid, so only those two are tried.  If both read
back, the nearer is taken, and an exact tie goes upward.

The decimal is written positionally, however long that gets: there is no exponent notation.
-/

namespace Custody.Number

-- powers are those of the core library, whatever else is in scope
attribute [local instance (high)] instPowNat

/-! ## Decimals -/

/-- The number `digits · 10^exponent`. -/
structure Decimal where
  digits : Nat
  exponent : Int
  deriving DecidableEq, Repr

namespace Decimal

/-- Move trailing zeros of the digits into the exponent, at most `fuel` of them. -/
def strip : Nat → Decimal → Decimal
  | 0, d => d
  | fuel + 1, d =>
    if d.digits % 10 = 0 then strip fuel ⟨d.digits / 10, d.exponent + 1⟩ else d

/-- The order of `digits · 10^exponent` and `m · 2^q`. -/
def compareScaled (d : Decimal) (m : Nat) (q : Int) : Ordering :=
  compare (d.digits * 10 ^ d.exponent.toNat * 2 ^ (-q).toNat)
    (m * 2 ^ q.toNat * 10 ^ (-d.exponent).toNat)

/-- Write a decimal positionally. -/
def render (d : Decimal) : String :=
  let text := Nat.repr d.digits
  if 0 ≤ d.exponent then text ++ String.ofList (List.replicate d.exponent.toNat '0')
  else
    let places := (-d.exponent).toNat
    -- there is at least one digit before the point
    let padded := List.replicate (places + 1 - text.length) '0' ++ text.toList
    let whole := padded.length - places
    String.ofList (padded.take whole ++ '.' :: padded.drop whole)

end Decimal

/-! ## The search -/

/-- A positive number `m · 2^q`, and whether its neighbour below is only half a step away. -/
structure Magnitude where
  m : Nat
  q : Int
  narrowBelow : Bool

namespace Magnitude

/-- Does the decimal lie among the reals that round to this number? -/
def readsBack (x : Magnitude) (d : Decimal) : Bool :=
  -- the ends of the interval, in quarters of a step so that both are integers
  let below := d.compareScaled (4 * x.m - if x.narrowBelow then 1 else 2) (x.q - 2)
  let above := d.compareScaled (4 * x.m + 2) (x.q - 2)
  let even := x.m % 2 == 0
  (below == .gt || (even && below == .eq)) && (above == .lt || (even && above == .eq))

/-- The number of units `10^g` below or at `m · 2^q`. -/
def floorOn (x : Magnitude) (g : Int) : Nat :=
  x.m * 2 ^ x.q.toNat * 10 ^ (-g).toNat / (2 ^ (-x.q).toNat * 10 ^ g.toNat)

/-- The decimal of the grid `10^g` that reads back and is nearest, if one does. -/
def onGrid (x : Magnitude) (g : Int) : Option Decimal :=
  let down : Decimal := ⟨x.floorOn g, g⟩
  let up : Decimal := ⟨x.floorOn g + 1, g⟩
  match x.readsBack down, x.readsBack up with
  | false, false => none
  | true, false => some down
  | false, true => some up
  | true, true =>
    -- the sum of both neighbours against twice the number
    let middle : Decimal := ⟨down.digits + up.digits, g⟩
    if middle.compareScaled (2 * x.m) x.q == .gt then some down else some up

/-- An exponent `k` with `m · 2^q < 10^k` and `10^(k-1) ≤ m · 2^q`, started from an estimate and
corrected by at most `fuel` steps. -/
def scale (x : Magnitude) : Nat → Int → Int
  | 0, k => k
  | fuel + 1, k =>
    if (Decimal.mk 1 k).compareScaled x.m x.q != .gt then scale x fuel (k + 1)
    else if (Decimal.mk 1 (k - 1)).compareScaled x.m x.q == .gt then scale x fuel (k - 1)
    else k

/-- The number itself, as a decimal with all its digits. -/
def exact (x : Magnitude) : Decimal :=
  ⟨x.m * 2 ^ x.q.toNat * 5 ^ (-x.q).toNat, min x.q 0⟩

/-- The shortest decimal that reads back, searched with up to `places` digits. -/
def shortest (x : Magnitude) (places : Nat) : Decimal :=
  -- the estimate is the binary logarithm times that of 2 to the base 10
  let k := x.scale 4 (((x.m.log2 : Int) + x.q) * 30103 / 100000 + 1)
  let found := (List.range places).findSome? fun (n : Nat) => x.onGrid (k - 1 - n)
  (found.getD x.exact).strip 400

end Magnitude

/-! ## Text -/

/-- The parts of a number that decide its decimal. -/
def Binary.toMagnitude {f : Format} (x : Binary f) : Magnitude :=
  { m := x.significand
    q := x.exponent
    narrowBelow := x.magnitude % 2 ^ f.fraction == 0 && f.leastExponent < x.exponent }

/-- The text of a number: the shortest decimal that reads back, written positionally, with a sign
also on a negative zero. -/
def Binary.text {f : Format} (x : Binary f) : String :=
  if x.isNaN then "NaN"
  else
    let sign := if x.negative then "-" else ""
    if x.isInfinite then sign ++ "inf"
    else if x.isZero then sign ++ "0"
    else sign ++ (x.toMagnitude.shortest 17).render

end Custody.Number
