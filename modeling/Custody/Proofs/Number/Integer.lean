import Custody.Number.Binary
import Mathlib.Algebra.Order.Ring.Int
import Mathlib.Algebra.Order.Group.Abs

/-!
# Integers as doubles

A double keeps the leading 53 bits of an integer, rounded to nearest and ties to even
(`nearestInt`).  What becomes of an integer on its way through a double is said here by integers
alone: which double it is, which integer is read back from it, and when two such doubles differ.

A double is compared by its units, its value in units of the least positive double: those of the
double of an integer are the kept bits, and a difference of doubles is zero exactly if their units
are the same.

- `nearestInt_mono`, `nearestInt_nearestInt`: rounding is monotone, and idempotent.
- `Binary.units_ofInt`: the double of an integer stands for the kept bits.
- `Binary.lt_abs_sub_iff`: a difference exceeds a zero tolerance exactly if there is one.
-/

namespace Custody.Number

-- powers are those of the core library, as in the definitions
attribute [local instance (high)] instPowNat

/-! ## Rounding a ratio -/

theorem roundHalfEven_eq (n d : Nat) :
    roundHalfEven n d =
      if 2 * (n % d) < d ∨ 2 * (n % d) = d ∧ n / d % 2 = 0 then n / d else n / d + 1 := by
  unfold roundHalfEven
  rcases Nat.lt_trichotomy (2 * (n % d)) d with hlt | heq | hgt
  · simp [Nat.compare_eq_lt.mpr hlt, hlt]
  · simp [heq]
  · simp [Nat.compare_eq_gt.mpr hgt, Nat.lt_asymm hgt, Nat.ne_of_gt hgt]

theorem roundHalfEven_of_dvd {n d : Nat} (h : d ∣ n) : roundHalfEven n d = n / d := by
  have hmod : n % d = 0 := Nat.mod_eq_zero_of_dvd h
  rw [roundHalfEven_eq, hmod]
  rcases Nat.eq_zero_or_pos d with rfl | hpos
  · simp
  · rw [if_pos (.inl (by omega))]

theorem roundHalfEven_mul (m : Nat) {d : Nat} (hd : 0 < d) : roundHalfEven (m * d) d = m := by
  rw [roundHalfEven_of_dvd (Nat.dvd_mul_left d m), Nat.mul_div_cancel m hd]

theorem roundHalfEven_mono {n n' : Nat} (h : n ≤ n') (d : Nat) :
    roundHalfEven n d ≤ roundHalfEven n' d := by
  rcases Nat.lt_or_eq_of_le (Nat.div_le_div_right (c := d) h) with hlt | heq
  · rw [roundHalfEven_eq, roundHalfEven_eq]
    split <;> split <;> omega
  · -- within one quotient the remainders are ordered
    have hmod : n % d ≤ n' % d := by
      have hn := Nat.div_add_mod n d
      have hn' := Nat.div_add_mod n' d
      rw [heq] at hn
      omega
    rw [roundHalfEven_eq, roundHalfEven_eq, heq]
    split <;> split <;> omega

/-! ## Keeping 53 bits -/

/-- A natural number rounded to its leading 53 bits, ties to the even one. -/
def nearest53 (n : Nat) : Nat :=
  roundHalfEven n (2 ^ (n.log2 - 52)) * 2 ^ (n.log2 - 52)

/-- The integer that the double nearest to an integer stands for. -/
def nearestInt (i : Int) : Int := if i < 0 then -(nearest53 i.natAbs : Int) else nearest53 i.natAbs

theorem nearest53_of_dvd {n : Nat} (h : 2 ^ (n.log2 - 52) ∣ n) : nearest53 n = n := by
  rw [nearest53, roundHalfEven_of_dvd h, Nat.div_mul_cancel h]

/-- What has no more than 53 bits, up to zeros at the end, is kept. -/
theorem nearest53_of_exact {m : Nat} (hm : m ≤ 2 ^ 53) (k : Nat) :
    nearest53 (m * 2 ^ k) = m * 2 ^ k := by
  apply nearest53_of_dvd
  by_cases hzero : m * 2 ^ k = 0
  · rw [hzero]
    exact Nat.dvd_zero _
  have hlow := Nat.log2_self_le hzero
  rcases Nat.lt_or_eq_of_le hm with hlt | rfl
  · -- the number is less than `2 ^ (53 + k)`
    have hhigh : 2 ^ (m * 2 ^ k).log2 < 2 ^ (53 + k) := by
      rw [Nat.pow_add]
      exact Nat.lt_of_le_of_lt hlow (Nat.mul_lt_mul_of_pos_right hlt (Nat.two_pow_pos k))
    have hlog := (Nat.pow_lt_pow_iff_right (by omega)).mp hhigh
    exact Nat.dvd_mul_left_of_dvd (Nat.pow_dvd_pow 2 (by omega)) m
  · rw [← Nat.pow_add, Nat.log2_two_pow]
    exact Nat.pow_dvd_pow 2 (by omega)

/-- No more than 53 bits are kept, and they are those that count most. -/
theorem exists_nearest53 (n : Nat) : ∃ m k, m ≤ 2 ^ 53 ∧ nearest53 n = m * 2 ^ k := by
  refine ⟨_, _, ?_, rfl⟩
  have hhigh : n ≤ 2 ^ 53 * 2 ^ (n.log2 - 52) := by
    rw [← Nat.pow_add]
    exact (Nat.lt_log2_self (n := n)).le.trans (Nat.pow_le_pow_right (by omega) (by omega))
  calc roundHalfEven n (2 ^ (n.log2 - 52))
      ≤ roundHalfEven (2 ^ 53 * 2 ^ (n.log2 - 52)) (2 ^ (n.log2 - 52)) :=
        roundHalfEven_mono hhigh _
    _ = 2 ^ 53 := roundHalfEven_mul _ (Nat.two_pow_pos _)

/-- Rounding does not leave the powers of two between which a number lies. -/
theorem nearest53_bounds {n : Nat} (hn : n ≠ 0) :
    2 ^ n.log2 ≤ nearest53 n ∧ nearest53 n ≤ 2 ^ (n.log2 + 1) := by
  have hround (bits : Nat) (hbits : n.log2 - 52 ≤ bits) :
      roundHalfEven (2 ^ bits) (2 ^ (n.log2 - 52)) * 2 ^ (n.log2 - 52) = 2 ^ bits := by
    have hdvd : 2 ^ (n.log2 - 52) ∣ 2 ^ bits := Nat.pow_dvd_pow 2 hbits
    rw [roundHalfEven_of_dvd hdvd, Nat.div_mul_cancel hdvd]
  constructor
  · rw [← hround n.log2 (by omega)]
    exact Nat.mul_le_mul_right _ (roundHalfEven_mono (Nat.log2_self_le hn) _)
  · rw [← hround (n.log2 + 1) (by omega)]
    exact Nat.mul_le_mul_right _ (roundHalfEven_mono (Nat.lt_log2_self).le _)

theorem nearest53_mono {n n' : Nat} (h : n ≤ n') : nearest53 n ≤ nearest53 n' := by
  rcases Nat.eq_zero_or_pos n with rfl | hpos
  · exact Nat.zero_le _
  have hn : n ≠ 0 := by omega
  have hn' : n' ≠ 0 := by omega
  have hlog : n.log2 ≤ n'.log2 := by
    rw [Nat.le_log2 hn']
    exact (Nat.log2_self_le hn).trans h
  rcases Nat.lt_or_eq_of_le hlog with hlt | heq
  · -- a power of two lies between them
    calc nearest53 n ≤ 2 ^ (n.log2 + 1) := (nearest53_bounds hn).2
      _ ≤ 2 ^ n'.log2 := Nat.pow_le_pow_right (by omega) hlt
      _ ≤ nearest53 n' := (nearest53_bounds hn').1
  · rw [nearest53, nearest53, heq]
    exact Nat.mul_le_mul_right _ (roundHalfEven_mono h _)

/-! ## Integers -/

theorem natAbs_nearestInt (i : Int) : (nearestInt i).natAbs = nearest53 i.natAbs := by
  unfold nearestInt
  split <;> omega

theorem nearestInt_of_exact {i : Int} {m k : Nat} (hm : m ≤ 2 ^ 53) (hi : i.natAbs = m * 2 ^ k) :
    nearestInt i = i := by
  have hkept : nearest53 i.natAbs = i.natAbs := by
    rw [hi, nearest53_of_exact hm]
  unfold nearestInt
  split <;> omega

theorem nearestInt_nearestInt (i : Int) : nearestInt (nearestInt i) = nearestInt i := by
  obtain ⟨m, k, hm, hkept⟩ := exists_nearest53 i.natAbs
  exact nearestInt_of_exact hm ((natAbs_nearestInt i).trans hkept)

theorem nearestInt_mono {i j : Int} (h : i ≤ j) : nearestInt i ≤ nearestInt j := by
  unfold nearestInt
  split
  case isTrue hi =>
    split
    case isTrue hj =>
      have hmono : nearest53 j.natAbs ≤ nearest53 i.natAbs := nearest53_mono (by omega)
      omega
    case isFalse => omega
  case isFalse hi =>
    rw [if_neg (by omega)]
    have hmono : nearest53 i.natAbs ≤ nearest53 j.natAbs := nearest53_mono (by omega)
    omega

/-! ## Patterns -/

namespace Binary

/-- The number of places after the point that a double can have. -/
def places : Nat := 1074

/-- The exponent of a double above the least one. -/
def binade (x : Double) : Nat := x.magnitude / 2 ^ 52 - 1

/-- The value of a double, in units of the least positive double. -/
def units (x : Double) : Int := x.signedSignificand * 2 ^ x.binade

def IsFinite (x : Double) : Prop := x.magnitude < Format.double.infinity

theorem exponent_eq (x : Double) : x.exponent = (x.binade : Int) - places := by
  have hleast : Format.double.leastExponent = -1074 := by decide
  simp only [exponent, hleast, binade, places]
  omega

theorem magnitude_pack (negative : Bool) {magnitude : Nat} (h : magnitude < 2 ^ 63) :
    (pack negative magnitude : Double).magnitude = magnitude := by
  have hweight : Format.double.signWeight = 2 ^ 63 := rfl
  simp only [Binary.magnitude, pack, hweight, BitVec.toNat_ofNat]
  cases negative <;> simp <;> omega

theorem negative_pack (negative : Bool) {magnitude : Nat} (h : magnitude < 2 ^ 63) :
    (pack negative magnitude : Double).negative = negative := by
  have hweight : Format.double.signWeight = 2 ^ 63 := rfl
  simp only [Binary.negative, pack, hweight, BitVec.toNat_ofNat]
  cases negative <;> simp <;> omega

theorem nearest_eq (f : Format) {n d : Nat} (hn : n ≠ 0) {q : Int}
    (hq : max (ratioExponent n d - f.fraction) f.leastExponent = q) :
    f.nearest n d =
      min (roundHalfEven (n * 2 ^ (-q).toNat) (d * 2 ^ q.toNat) +
        (q - f.leastExponent).toNat * 2 ^ f.fraction) f.infinity := by
  subst hq
  rw [Format.nearest, if_neg hn]

theorem nearest_le_infinity (f : Format) (n d : Nat) : f.nearest n d ≤ f.infinity := by
  unfold Format.nearest
  split
  · exact Nat.zero_le _
  · exact Nat.min_le_right _ _

theorem nearestScaled_le (f : Format) (m : Nat) (q : Int) : nearestScaled f m q ≤ f.infinity :=
  nearest_le_infinity ..

theorem infinity_lt : Format.double.infinity < 2 ^ 63 := by decide

namespace IsFinite

variable {x : Double}

theorem not_isNaN (h : x.IsFinite) : x.isNaN = false := by
  simpa [isNaN] using h.le

theorem not_isInfinite (h : x.IsFinite) : x.isInfinite = false := by
  simpa [isInfinite] using Nat.ne_of_lt h

end IsFinite

/-- A magnitude put together from a significand and an exponent stands for their product, also
where the significand carries into the exponent. -/
theorem significand_mul_of_magnitude {x : Double} {m q : Nat} (hlow : 2 ^ 52 ≤ m)
    (hhigh : m ≤ 2 ^ 53) (h : x.magnitude = m + q * 2 ^ 52) :
    x.significand * 2 ^ x.binade = m * 2 ^ q := by
  have hnormal : ¬ x.magnitude < 2 ^ 52 := by omega
  have hfraction : Format.double.fraction = 52 := rfl
  rw [significand, binade, hfraction, if_neg hnormal, h]
  rcases Nat.lt_or_eq_of_le hhigh with hlt | rfl
  · have hmod : (m + q * 2 ^ 52) % 2 ^ 52 = m - 2 ^ 52 := by omega
    have hdiv : (m + q * 2 ^ 52) / 2 ^ 52 - 1 = q := by omega
    rw [hmod, hdiv, Nat.add_sub_cancel' hlow]
  · have hmod : (2 ^ 53 + q * 2 ^ 52) % 2 ^ 52 = 0 := by omega
    have hdiv : (2 ^ 53 + q * 2 ^ 52) / 2 ^ 52 - 1 = q + 1 := by omega
    rw [hmod, hdiv, Nat.pow_succ]
    omega

/-! ## The double of an integer -/

/-- The leading 53 bits of a natural number, with zeros put behind fewer ones. -/
def leading (n : Nat) : Nat := roundHalfEven (n * 2 ^ (52 - n.log2)) (2 ^ (n.log2 - 52))

theorem leading_bounds {n : Nat} (hn : n ≠ 0) : 2 ^ 52 ≤ leading n ∧ leading n ≤ 2 ^ 53 := by
  have hround (bits : Nat) :
      roundHalfEven (2 ^ (bits + (n.log2 - 52))) (2 ^ (n.log2 - 52)) = 2 ^ bits := by
    rw [Nat.pow_add, roundHalfEven_mul _ (Nat.two_pow_pos _)]
  have hshift (bits : Nat) :
      2 ^ (n.log2 + bits) * 2 ^ (52 - n.log2) = 2 ^ (52 + bits + (n.log2 - 52)) := by
    rw [← Nat.pow_add]
    congr 1
    omega
  constructor
  · rw [← hround 52, leading]
    apply roundHalfEven_mono
    calc 2 ^ (52 + (n.log2 - 52)) = 2 ^ n.log2 * 2 ^ (52 - n.log2) := (hshift 0).symm
      _ ≤ n * 2 ^ (52 - n.log2) := Nat.mul_le_mul_right _ (Nat.log2_self_le hn)
  · rw [← hround 53, leading]
    apply roundHalfEven_mono
    calc n * 2 ^ (52 - n.log2) ≤ 2 ^ (n.log2 + 1) * 2 ^ (52 - n.log2) :=
          Nat.mul_le_mul_right _ Nat.lt_log2_self.le
      _ = 2 ^ (53 + (n.log2 - 52)) := hshift 1

/-- Put back to their places, the leading bits are what is kept. -/
theorem leading_mul (n : Nat) :
    leading n * 2 ^ (n.log2 + 1022) = nearest53 n * 2 ^ places := by
  rcases Nat.le_total 52 n.log2 with hlarge | hless
  · have hplaces : n.log2 + 1022 = n.log2 - 52 + places := by
      unfold places
      omega
    rw [leading, Nat.sub_eq_zero_of_le hlarge, Nat.pow_zero, Nat.mul_one, nearest53, hplaces,
      Nat.pow_add, Nat.mul_assoc]
  · -- nothing is rounded
    have hplaces : 52 - n.log2 + (n.log2 + 1022) = places := by
      unfold places
      omega
    rw [leading, Nat.sub_eq_zero_of_le hless, nearest53, Nat.sub_eq_zero_of_le hless, Nat.pow_zero,
      roundHalfEven_of_dvd (Nat.one_dvd _), roundHalfEven_of_dvd (Nat.one_dvd _), Nat.div_one,
      Nat.div_one, Nat.mul_one, Nat.mul_assoc, ← Nat.pow_add, hplaces]

theorem ratioExponent_one {n : Nat} (hn : n ≠ 0) : ratioExponent n 1 = n.log2 := by
  have hlow := Nat.log2_self_le hn
  have hone : Nat.log2 1 = 0 := by decide
  simp [ratioExponent, hone, hlow]

theorem leading_add_lt {n : Nat} (hn : n ≠ 0) (hsmall : n.log2 ≤ 64) :
    leading n + (n.log2 + 1022) * 2 ^ 52 < Format.double.infinity := by
  have hinfinity : Format.double.infinity = 2047 * 2 ^ 52 := by decide
  have hhigh := (leading_bounds hn).2
  omega

/-- The magnitude of the double nearest to a natural number that is far from being infinite. -/
theorem nearest_one {n : Nat} (hn : n ≠ 0) (hsmall : n.log2 ≤ 64) :
    Format.double.nearest n 1 = leading n + (n.log2 + 1022) * 2 ^ 52 := by
  have hleast : Format.double.leastExponent = -1074 := by decide
  have hfraction : Format.double.fraction = 52 := rfl
  -- the weight of the last bit
  have hq : max (ratioExponent n 1 - (Format.double.fraction : Int))
      Format.double.leastExponent = (n.log2 : Int) - 52 := by
    rw [ratioExponent_one hn, hleast, hfraction]
    omega
  have hdown : (-((n.log2 : Int) - 52)).toNat = 52 - n.log2 := by omega
  have hup : ((n.log2 : Int) - 52).toNat = n.log2 - 52 := by omega
  have hsteps : ((n.log2 : Int) - 52 - -1074).toNat = n.log2 + 1022 := by omega
  rw [nearest_eq Format.double hn hq, hdown, hup, hleast, hsteps, hfraction, Nat.one_mul]
  exact Nat.min_eq_left (leading_add_lt hn hsmall).le

section OfInt

variable {i : Int}

theorem magnitude_ofInt (i : Int) :
    (ofInt i : Double).magnitude = Format.double.nearest i.natAbs 1 :=
  magnitude_pack _ (Nat.lt_of_le_of_lt (nearest_le_infinity _ _ _) infinity_lt)

theorem negative_ofInt (i : Int) : (ofInt i : Double).negative = decide (i < 0) :=
  negative_pack _ (Nat.lt_of_le_of_lt (nearest_le_infinity _ _ _) infinity_lt)

theorem isFinite_ofInt (hsmall : i.natAbs.log2 ≤ 64) : (ofInt i : Double).IsFinite := by
  rw [IsFinite, magnitude_ofInt]
  by_cases hzero : i.natAbs = 0
  · rw [hzero]
    decide
  · rw [nearest_one hzero hsmall]
    exact leading_add_lt hzero hsmall

theorem significand_ofInt (hsmall : i.natAbs.log2 ≤ 64) :
    (ofInt i : Double).significand * 2 ^ (ofInt i : Double).binade =
      nearest53 i.natAbs * 2 ^ places := by
  have hmagnitude := magnitude_ofInt i
  by_cases hzero : i.natAbs = 0
  · have hnone : (ofInt i : Double).magnitude = 0 := by
      rw [hmagnitude, hzero]
      rfl
    have hsignificand : (ofInt i : Double).significand = 0 := by
      rw [significand, hnone]
      rfl
    have hkept : nearest53 0 = 0 := by decide
    rw [hsignificand, hzero, hkept, Nat.zero_mul, Nat.zero_mul]
  · obtain ⟨hlow, hhigh⟩ := leading_bounds hzero
    rw [significand_mul_of_magnitude hlow hhigh (hmagnitude.trans (nearest_one hzero hsmall)),
      leading_mul]

/-- The double of an integer stands for the bits of it that are kept. -/
theorem units_ofInt (hsmall : i.natAbs.log2 ≤ 64) :
    (ofInt i : Double).units = nearestInt i * 2 ^ places := by
  have hvalue := congrArg Int.ofNat (significand_ofInt hsmall)
  simp only [Int.ofNat_eq_natCast, Int.natCast_mul, Int.natCast_pow, Int.cast_ofNat_Int] at hvalue
  unfold units signedSignificand nearestInt
  rw [negative_ofInt]
  by_cases hneg : i < 0
  · simp only [hneg, decide_true, if_true, Int.neg_mul, hvalue]
  · simp only [hneg, decide_false, if_false, hvalue, Bool.false_eq_true]

end OfInt

/-! ## Reading an integer back -/

theorem whole_of_units {x : Double} {n : Nat}
    (h : x.significand * 2 ^ x.binade = n * 2 ^ places) :
    x.significand * 2 ^ x.exponent.toNat / 2 ^ (-x.exponent).toNat = n := by
  rcases Nat.le_total places x.binade with hlarge | hless
  · have hup : x.exponent.toNat = x.binade - places := by
      rw [exponent_eq]
      omega
    have hdown : (-x.exponent).toNat = 0 := by
      rw [exponent_eq]
      omega
    rw [hup, hdown, Nat.pow_zero, Nat.div_one]
    apply Nat.eq_of_mul_eq_mul_right (Nat.two_pow_pos places)
    rw [Nat.mul_assoc, ← Nat.pow_add, Nat.sub_add_cancel hlarge, h]
  · have hup : x.exponent.toNat = 0 := by
      rw [exponent_eq]
      omega
    have hdown : (-x.exponent).toNat = places - x.binade := by
      rw [exponent_eq]
      omega
    have hsignificand : x.significand = n * 2 ^ (places - x.binade) := by
      apply Nat.eq_of_mul_eq_mul_right (Nat.two_pow_pos x.binade)
      rw [h, Nat.mul_assoc, ← Nat.pow_add, Nat.sub_add_cancel hless]
    rw [hup, hdown, Nat.pow_zero, Nat.mul_one, hsignificand,
      Nat.mul_div_cancel _ (Nat.two_pow_pos _)]

/-- From the double of an integer the kept bits are read back, held within the range. -/
theorem toIntSaturating_ofInt {i : Int} (hsmall : i.natAbs.log2 ≤ 64) (low high : Int) :
    (ofInt i : Double).toIntSaturating low high = max low (min high (nearestInt i)) := by
  have hfinite := isFinite_ofInt hsmall
  have hwhole := whole_of_units (significand_ofInt hsmall)
  have htruncate : (ofInt i : Double).truncate = nearestInt i := by
    unfold truncate nearestInt
    rw [hwhole, negative_ofInt]
    simp only [decide_eq_true_eq]
  rw [toIntSaturating, hfinite.not_isNaN, hfinite.not_isInfinite, htruncate]
  rfl

/-! ## Differences -/

/-- A ratio that is not less than the least positive double is not rounded to zero. -/
theorem nearestScaled_pos {n : Nat} (hn : n ≠ 0) {q : Int} (hq : -(places : Int) ≤ q) :
    0 < nearestScaled Format.double n q := by
  have hleast : Format.double.leastExponent = -(places : Int) := by decide
  have hinfinity : 0 < Format.double.infinity := by decide
  have hscaled : n * 2 ^ q.toNat ≠ 0 := Nat.mul_ne_zero hn (Nat.two_pow_pos _).ne'
  rw [nearestScaled, nearest_eq _ hscaled rfl]
  obtain ⟨last, hlast⟩ : ∃ last, last = max (ratioExponent (n * 2 ^ q.toNat) (2 ^ (-q).toNat) -
      (Format.double.fraction : Int)) Format.double.leastExponent := ⟨_, rfl⟩
  rw [← hlast]
  refine Nat.lt_min.mpr ⟨?_, hinfinity⟩
  rcases Int.lt_or_eq_of_le (hlast ▸ le_max_right _ _ : Format.double.leastExponent ≤ last) with
    habove | hsame
  · -- above the least exponent there is a step of the exponent
    have hsteps : 0 < (last - Format.double.leastExponent).toNat := by omega
    exact Nat.lt_of_lt_of_le (Nat.mul_pos hsteps (Nat.two_pow_pos _)) (Nat.le_add_left _ _)
  · -- at the least exponent the significand is at least one
    have hup : last.toNat = 0 := by omega
    have hdown : (-last).toNat = places := by omega
    have hratio : 2 ^ (-q).toNat ≤ n * 2 ^ q.toNat * 2 ^ places :=
      calc 2 ^ (-q).toNat ≤ 2 ^ places := Nat.pow_le_pow_right (by omega) (by omega)
        _ ≤ n * 2 ^ q.toNat * 2 ^ places := Nat.le_mul_of_pos_left _ (Nat.pos_of_ne_zero hscaled)
    have hone := roundHalfEven_mono hratio (2 ^ (-q).toNat)
    rw [roundHalfEven_of_dvd (Nat.dvd_refl _), Nat.div_self (Nat.two_pow_pos _)] at hone
    rw [hup, hdown, Nat.pow_zero, Nat.mul_one]
    omega

section Strays

variable {x y tolerance : Double}

/-- The difference of two doubles, as a multiple of the smaller exponent. -/
def difference (x y : Double) : Int :=
  x.signedSignificand * 2 ^ (x.exponent - min x.exponent y.exponent).toNat -
    y.signedSignificand * 2 ^ (y.exponent - min x.exponent y.exponent).toNat

theorem sub_of_finite (hx : x.IsFinite) (hy : y.IsFinite) :
    sub x y =
      if x.difference y = 0 then pack (x.isZero && x.negative && !y.negative) 0
      else
        pack (x.difference y < 0)
          (nearestScaled .double (x.difference y).natAbs (min x.exponent y.exponent)) := by
  rw [sub, hx.not_isNaN, hy.not_isNaN, hx.not_isInfinite, hy.not_isInfinite]
  rfl

theorem difference_eq_zero_iff (x y : Double) : x.difference y = 0 ↔ x.units = y.units := by
  have hpos : (0 : Int) < 2 ^ min x.binade y.binade := Int.pow_pos (by omega)
  have hscale (z : Double) (hz : z = x ∨ z = y) :
      z.signedSignificand * 2 ^ (z.exponent - min x.exponent y.exponent).toNat *
        2 ^ min x.binade y.binade = z.units := by
    have hsteps : (z.exponent - min x.exponent y.exponent).toNat + min x.binade y.binade =
        z.binade := by
      rcases hz with rfl | rfl
      · rw [exponent_eq, exponent_eq]
        omega
      · rw [exponent_eq, exponent_eq]
        omega
    rw [units, Int.mul_assoc, ← Int.pow_add, hsteps]
  rw [difference, Int.sub_eq_zero, ← hscale x (.inl rfl), ← hscale y (.inr rfl)]
  exact (Int.mul_eq_mul_right_iff hpos.ne').symm

/-- A number exceeds a zero tolerance exactly if it is not zero itself. -/
theorem lt_abs_pack_iff (htolerance : tolerance.isZero = true) (negative : Bool) {magnitude : Nat}
    (h : magnitude ≤ Format.double.infinity) :
    lt tolerance (abs (pack negative magnitude : Double)) = true ↔ magnitude ≠ 0 := by
  have hzero : tolerance.magnitude = 0 := by simpa [isZero] using htolerance
  have hlt := Nat.lt_of_le_of_lt h infinity_lt
  have habs : abs (pack negative magnitude : Double) = pack false magnitude := by
    rw [abs, magnitude_pack negative hlt]
  have hkey : tolerance.key = 0 := by
    rw [key, hzero]
    split <;> rfl
  have hkey' : (pack false magnitude : Double).key = magnitude := by
    rw [key, magnitude_pack false hlt, negative_pack false hlt]
    rfl
  have hnumber : tolerance.isNaN = false := by
    simp [isNaN, hzero]
  have hnumber' : (pack false magnitude : Double).isNaN = false := by
    simpa [isNaN, magnitude_pack false hlt] using h
  rw [habs, lt, hnumber, hnumber', hkey, hkey']
  simp
  omega

/-- Numbers are further apart than a zero tolerance exactly if they differ. -/
theorem lt_abs_sub_iff (hx : x.IsFinite) (hy : y.IsFinite) (htolerance : tolerance.isZero = true) :
    lt tolerance (abs (sub x y)) = true ↔ x.units ≠ y.units := by
  rw [sub_of_finite hx hy, Ne, ← difference_eq_zero_iff]
  split
  case isTrue hsame =>
    rw [lt_abs_pack_iff htolerance _ (Nat.zero_le _)]
    simp [hsame]
  case isFalse hdiffer =>
    have hbelow : -(places : Int) ≤ min x.exponent y.exponent := by
      rw [exponent_eq, exponent_eq]
      omega
    have hpos := nearestScaled_pos (Int.natAbs_ne_zero.mpr hdiffer) hbelow
    rw [lt_abs_pack_iff htolerance _ (nearestScaled_le ..)]
    exact ⟨fun _ => hdiffer, fun _ => hpos.ne'⟩

end Strays

end Binary

end Custody.Number
