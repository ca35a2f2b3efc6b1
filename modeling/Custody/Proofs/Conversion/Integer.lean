import Custody.Proofs.Conversion.Numeric
import Custody.Proofs.Number.Integer

/-!
# Checked conversions between integers

An integer is converted through a double, and a checked conversion compares what was written with
that double, not with the integer.  What a double rounds away is therefore not noticed
(`convertElement_check`): an integer passes if it lies in the range of the target kind, or so little
above it that a double cannot tell (`ArrayKind.limit`), and then it is replaced by the integer that
its double stands for, clipped to the range.

- `convertElement_check`: one element.
- `ArrayKind.passes_iff`: which integers pass.
- `Container.checked_integers`: arrays, and which of them come out as they went in.
-/

namespace Custody

open Number SessionM

-- powers are those of the core library, as in the definitions
attribute [local instance (high)] instPowNat

/-! ## Integer kinds -/

namespace ArrayKind

/-- The number of bits of an element. -/
def bits (k : ArrayKind) : Nat := 8 * k.element.size

/-- The integer that an element of an integer kind stands for. -/
def integer (k : ArrayKind) (w : k.element.Word) : Int := if k.isSigned then w.toInt else w.toNat

/-- The least integer of an integer kind. -/
def least (k : ArrayKind) : Int := if k.isSigned then -2 ^ (k.bits - 1) else 0

/-- The greatest integer of an integer kind. -/
def greatest (k : ArrayKind) : Int :=
  if k.isSigned then 2 ^ (k.bits - 1) - 1 else 2 ^ k.bits - 1

variable {k : ArrayKind}

theorem toComplex_of_integer (hk : k.isInteger = true) (w : k.element.Word) :
    k.element.toComplex w = ⟨Binary.ofInt (k.integer w), Binary.pack false 0⟩ := by
  cases k with
  | real32 | real64 | complex32 | complex64 => cases hk
  | _ => rfl

theorem ofComplex_of_integer (hk : k.isInteger = true) (z : Complex .double) :
    k.element.ofComplex z = BitVec.ofInt _ (z.re.toIntSaturating k.least k.greatest) := by
  cases k with
  | real32 | real64 | complex32 | complex64 => cases hk
  | _ => rfl

theorem bits_pos (k : ArrayKind) : 0 < k.bits := by
  cases k <;> decide

theorem least_le_integer (k : ArrayKind) (w : k.element.Word) : k.least ≤ k.integer w := by
  unfold least integer
  split
  · exact BitVec.le_toInt w
  · exact Int.natCast_nonneg _

theorem integer_le_greatest (k : ArrayKind) (w : k.element.Word) : k.integer w ≤ k.greatest := by
  unfold greatest integer
  split
  · exact Int.le_sub_one_of_lt BitVec.toInt_lt
  · have hlt := Int.ofNat_lt.mpr w.isLt
    rw [Int.natCast_pow] at hlt
    exact Int.le_sub_one_of_lt hlt

/-- An integer of the kind is the integer of its element. -/
theorem integer_ofInt {v : Int} (hlow : k.least ≤ v) (hhigh : v ≤ k.greatest) :
    k.integer (BitVec.ofInt _ v) = v := by
  unfold least at hlow
  unfold greatest at hhigh
  unfold integer
  split
  case isTrue hsigned =>
    rw [if_pos hsigned] at hlow hhigh
    exact BitVec.toInt_ofInt_eq_self k.bits_pos hlow (Int.lt_of_le_sub_one hhigh)
  case isFalse hunsigned =>
    rw [if_neg hunsigned] at hlow hhigh
    have hpow : ((2 ^ (8 * k.element.size) : Nat) : Int) = 2 ^ k.bits := Int.natCast_pow ..
    rw [BitVec.toNat_ofInt, hpow, Int.emod_eq_of_lt hlow (Int.lt_of_le_sub_one hhigh),
      Int.toNat_of_nonneg hlow]

/-! ## Ranges -/

/-- An integer kind has no more than 64 bits. -/
theorem neg_le_least (hk : k.isInteger = true) : -0x8000000000000000 ≤ k.least := by
  cases k with
  | real32 | real64 | complex32 | complex64 => cases hk
  | _ => decide

theorem greatest_le (hk : k.isInteger = true) : k.greatest ≤ 0xFFFFFFFFFFFFFFFF := by
  cases k with
  | real32 | real64 | complex32 | complex64 => cases hk
  | _ => decide

theorem least_le_greatest (k : ArrayKind) : k.least ≤ k.greatest := by
  cases k <;> decide

/-- The double of an integer of the kind is finite. -/
theorem log2_le (hk : k.isInteger = true) {v : Int} (hlow : k.least ≤ v) (hhigh : v ≤ k.greatest) :
    v.natAbs.log2 ≤ 64 := by
  have hleast := neg_le_least hk
  have hgreatest := greatest_le hk
  by_cases hzero : v.natAbs = 0
  · rw [hzero]
    decide
  · exact ((Nat.log2_lt hzero).mpr (by omega : v.natAbs < 2 ^ 64)).le

theorem nearestInt_least (k : ArrayKind) : nearestInt k.least = k.least := by
  cases k <;> decide

theorem greatest_le_nearestInt (k : ArrayKind) : k.greatest ≤ nearestInt k.greatest := by
  cases k <;> decide

/-- The nearest integer of the range. -/
def clip (k : ArrayKind) (n : Int) : Int := max k.least (min k.greatest n)

theorem least_le_clip (k : ArrayKind) (n : Int) : k.least ≤ k.clip n := le_max_left _ _

theorem clip_le_greatest (k : ArrayKind) (n : Int) : k.clip n ≤ k.greatest :=
  max_le k.least_le_greatest (min_le_left _ _)

/-- What is clipped keeps its double exactly if it was in the range, or not told apart from the
greatest integer of it. -/
theorem nearestInt_clip_iff (k : ArrayKind) (v : Int) :
    nearestInt (k.clip (nearestInt v)) = nearestInt v ↔
      k.least ≤ nearestInt v ∧ nearestInt v ≤ nearestInt k.greatest := by
  have hrange := k.least_le_greatest
  have hgreatest := k.greatest_le_nearestInt
  unfold clip
  constructor
  · intro hkept
    rw [← hkept]
    refine ⟨?_, nearestInt_mono (max_le hrange (min_le_left _ _))⟩
    rw [← k.nearestInt_least]
    exact nearestInt_mono (k.nearestInt_least.symm ▸ le_max_left _ _)
  · rintro ⟨hlow, hhigh⟩
    rw [max_eq_right (le_min hrange hlow)]
    rcases Int.le_total (nearestInt v) k.greatest with hinside | habove
    · rw [min_eq_right hinside, nearestInt_nearestInt]
    · -- the greatest integer and the number itself round to the same double
      rw [min_eq_left habove]
      apply le_antisymm
      · rw [← nearestInt_nearestInt v]
        exact nearestInt_mono habove
      · exact hhigh

end ArrayKind

/-! ## One element -/

section Element

variable {tolerance : Double}

/-- Integers are told apart by their doubles, as far as these differ. -/
theorem strays_ofInt (htolerance : tolerance.isZero = true) {v n : Int}
    (hv : v.natAbs.log2 ≤ 64) (hn : n.natAbs.log2 ≤ 64) :
    strays tolerance ⟨Binary.ofInt v, Binary.pack false 0⟩
        ⟨Binary.ofInt n, Binary.pack false 0⟩ = true ↔
      nearestInt n ≠ nearestInt v := by
  have hzero : (Binary.pack false 0 : Double).IsFinite :=
    show (Binary.pack false 0 : Double).magnitude < Format.double.infinity by decide
  have himaginary : ¬ Binary.lt tolerance
      (Binary.abs (Binary.sub (Binary.pack false 0 : Double) (Binary.pack false 0))) = true := by
    rw [Binary.lt_abs_sub_iff hzero hzero htolerance]
    exact fun h => h rfl
  have hplaces : (2 : Int) ^ Binary.places ≠ 0 := (Int.pow_pos (by decide)).ne'
  -- doubles differ as their units do, and units are multiples of the integers
  rw [strays, Bool.or_eq_true, or_iff_left himaginary,
    Binary.lt_abs_sub_iff (Binary.isFinite_ofInt hn) (Binary.isFinite_ofInt hv) htolerance,
    Binary.units_ofInt hn, Binary.units_ofInt hv, Ne, Int.mul_eq_mul_right_iff hplaces]

variable {source target : ArrayKind}

/-- Before a checked conversion, nothing is done to a number. -/
theorem prepare_check (source target : ArrayKind) (z : Complex .double) :
    prepare source target .check z = z := by
  simp [prepare, ConvertMethod.scales, ConvertMethod.rounds, ConvertMethod.clips]

/-- A checked conversion clips the integer that the double stands for, and refuses it if that made
another double of it. -/
theorem convertElement_check (hsource : source.isInteger = true) (htarget : target.isInteger = true)
    (htolerance : tolerance.isZero = true) (w : source.element.Word) :
    convertElement source target .check tolerance w =
      if target.least ≤ nearestInt (source.integer w) ∧
          nearestInt (source.integer w) ≤ nearestInt target.greatest then
        some (BitVec.ofInt _ (target.clip (nearestInt (source.integer w))))
      else none := by
  obtain ⟨v, hv⟩ : ∃ v, v = source.integer w := ⟨_, rfl⟩
  have hsmall : v.natAbs.log2 ≤ 64 :=
    hv ▸ ArrayKind.log2_le hsource (source.least_le_integer w) (source.integer_le_greatest w)
  have hlow := target.least_le_clip (nearestInt v)
  have hhigh := target.clip_le_greatest (nearestInt v)
  have hz : prepare source target .check (source.element.toComplex w) =
      ⟨Binary.ofInt v, Binary.pack false 0⟩ := by
    rw [prepare_check, ArrayKind.toComplex_of_integer hsource, hv]
  have hwritten : target.element.ofComplex ⟨Binary.ofInt v, Binary.pack false 0⟩ =
      BitVec.ofInt _ (target.clip (nearestInt v)) := by
    rw [ArrayKind.ofComplex_of_integer htarget, Binary.toIntSaturating_ofInt hsmall]
    rfl
  -- what was written is compared with the double that it was written from
  have hstrays := strays_ofInt htolerance hsmall (ArrayKind.log2_le htarget hlow hhigh)
  rw [Ne, ArrayKind.nearestInt_clip_iff] at hstrays
  have hchecks : ConvertMethod.check.checks = true := rfl
  rw [← hv, convertElement, hz, hwritten, ArrayKind.toComplex_of_integer htarget,
    ArrayKind.integer_ofInt hlow hhigh, hchecks, Bool.true_and]
  by_cases hpass : target.least ≤ nearestInt v ∧ nearestInt v ≤ nearestInt target.greatest
  · rw [if_pos hpass, if_neg (mt hstrays.mp (not_not_intro hpass))]
  · rw [if_neg hpass, if_pos (hstrays.mpr hpass)]

end Element

/-! ## What passes -/

namespace ArrayKind

variable {k : ArrayKind} {v : Int}

/-- The greatest integer that passes a check.  Above the greatest signed integer of 64 bits there
are integers with the same double. -/
def limit (k : ArrayKind) : Int :=
  if k = int64 then k.greatest + 1025 else k.greatest

theorem least_le_nearestInt_iff (hk : k.isInteger = true) (hv : -0x8000000000000000 ≤ v) :
    k.least ≤ nearestInt v ↔ k.least ≤ v := by
  constructor
  · intro hpass
    by_contra hbelow
    -- it is enough that the integer just below the range does not pass
    have hmono : nearestInt v ≤ nearestInt (k.least - 1) := nearestInt_mono (by omega)
    cases k with
    | real32 | real64 | complex32 | complex64 => cases hk
    | int64 => exact hbelow hv
    | _ => exact absurd (hpass.trans hmono) (by decide)
  · intro hinside
    rw [← k.nearestInt_least]
    exact nearestInt_mono hinside

theorem nearestInt_le_iff (hk : k.isInteger = true) (hv : v ≤ 0xFFFFFFFFFFFFFFFF) :
    nearestInt v ≤ nearestInt k.greatest ↔ v ≤ k.limit := by
  constructor
  · intro hpass
    by_contra habove
    -- it is enough that the integer just above the limit does not pass
    have hmono : nearestInt (k.limit + 1) ≤ nearestInt v := nearestInt_mono (by omega)
    cases k with
    | real32 | real64 | complex32 | complex64 => cases hk
    | uint64 => exact habove hv
    | _ => exact absurd (hmono.trans hpass) (by decide)
  · intro hinside
    have hlimit : nearestInt k.limit ≤ nearestInt k.greatest := by
      cases k <;> decide
    exact (nearestInt_mono hinside).trans hlimit

/-- What passes a check, in terms of the integers themselves. -/
theorem passes_iff {source target : ArrayKind} (hsource : source.isInteger = true)
    (htarget : target.isInteger = true) (w : source.element.Word) :
    target.least ≤ nearestInt (source.integer w) ∧
        nearestInt (source.integer w) ≤ nearestInt target.greatest ↔
      target.least ≤ source.integer w ∧ source.integer w ≤ target.limit := by
  have hlow := (neg_le_least hsource).trans (source.least_le_integer w)
  have hhigh := (source.integer_le_greatest w).trans (greatest_le hsource)
  rw [least_le_nearestInt_iff htarget hlow, nearestInt_le_iff htarget hhigh]

/-- What passes is clipped from above only. -/
theorem clip_eq_min {n : Int} (h : k.least ≤ n) : k.clip n = min k.greatest n :=
  max_eq_right (le_min k.least_le_greatest h)

/-- An integer that passes comes out as it went in exactly if it is the greatest one, or a lesser
one that a double can hold. -/
theorem min_nearestInt_eq_iff :
    min k.greatest (nearestInt v) = v ↔
      v = k.greatest ∨ v ≤ k.greatest ∧ nearestInt v = v := by
  have hgreatest := k.greatest_le_nearestInt
  constructor
  · intro hsame
    omega
  · rintro (rfl | ⟨hinside, hexact⟩)
    · exact min_eq_left hgreatest
    · rw [hexact, min_eq_right hinside]

/-- A double can hold 53 bits. -/
theorem nearestInt_of_small (hlow : -2 ^ 53 ≤ v) (hhigh : v ≤ 2 ^ 53) : nearestInt v = v :=
  nearestInt_of_exact (m := v.natAbs) (k := 0) (by omega) (by omega)

end ArrayKind

/-! ## Arrays -/

namespace ArrayObject

variable {a b : ArrayObject} {source target : ArrayKind} {tolerance : Double}

/-- The integer at an index. -/
def integerAt (a : ArrayObject) (kind : ArrayKind) (index : Nat) : Int :=
  kind.integer (a.storage.read kind.element.size index)

theorem convertible_check_iff (hcode : ArrayKind.ofCode? a.code = some source)
    (hsource : source.isInteger = true) (htarget : target.isInteger = true)
    (htolerance : tolerance.isZero = true) :
    a.Convertible target .check tolerance ↔
      ∀ index < a.length,
        target.least ≤ a.integerAt source index ∧ a.integerAt source index ≤ target.limit := by
  have helement (index : Nat) : (convertElement source target .check tolerance
        (a.storage.read source.element.size index)).isSome ↔
      target.least ≤ a.integerAt source index ∧ a.integerAt source index ≤ target.limit := by
    rw [convertElement_check hsource htarget htolerance, ArrayObject.integerAt,
      ← ArrayKind.passes_iff hsource htarget]
    split
    case isTrue hpass => exact iff_of_true rfl hpass
    case isFalse hlost => exact iff_of_false (by simp) hlost
  constructor
  · rintro ⟨source', hcode', hall⟩ index hindex
    obtain rfl : source = source' := Option.some.inj (hcode.symm.trans hcode')
    exact (helement index).mp (hall index hindex)
  · intro hall
    exact ⟨source, hcode, fun index hindex => (helement index).mpr (hall index hindex)⟩

/-- An integer that passed is the one that its double stands for, or the greatest one. -/
theorem ConvertedFrom.integerAt_eq (h : b.ConvertedFrom a source target .check tolerance)
    (hsource : source.isInteger = true) (htarget : target.isInteger = true)
    (htolerance : tolerance.isZero = true) {index : Nat} (hindex : index < a.length) :
    b.integerAt target index = min target.greatest (nearestInt (a.integerAt source index)) := by
  have helement := h.element index hindex
  rw [convertElement_check hsource htarget htolerance] at helement
  split at helement
  case isFalse => cases helement
  case isTrue hpass =>
    rw [integerAt, ← Option.some.inj helement,
      ArrayKind.integer_ofInt (target.least_le_clip _) (target.clip_le_greatest _),
      ArrayKind.clip_eq_min hpass.1]
    rfl

end ArrayObject

namespace Container

/-- **A checked conversion between integers checks what a double can tell.**  It succeeds exactly if
every integer lies in the range of the target kind, where a signed kind of 64 bits takes up to 1025
integers above its greatest one for that.  Each integer of the result is the one that the double of
the source stands for, and no greater than the greatest one of the kind.  It is the integer of the
source exactly if that is the greatest one, or a lesser one that a double can hold; so all integers
of up to 53 bits are kept. -/
theorem checked_integers {s : Session} {k : Container .numeric} {a : ArrayObject}
    (hhost : k.host = .reference) (hfound : s.memory.find? k.handle = some (.array a))
    (hon : s.memory.failConversions = false) {source target : ArrayKind}
    (hcode : ArrayKind.ofCode? a.code = some source) (hsource : source.isInteger = true)
    (htarget : target.isInteger = true) {tolerance : Double}
    (htolerance : tolerance.isZero = true) :
    ((∃ k' s', k.convertArray target .check tolerance s = .ok k' s') ↔
      ∀ index < a.length,
        target.least ≤ a.integerAt source index ∧ a.integerAt source index ≤ target.limit) ∧
    ∀ k' s', k.convertArray target .check tolerance s = .ok k' s' →
      ∃ b, s'.memory.find? k'.handle = some (.array b) ∧ b.code = target.code ∧
        b.extents = a.extents ∧ b.length = a.length ∧
        ∀ index < a.length,
          b.integerAt target index = min target.greatest (nearestInt (a.integerAt source index)) ∧
          (b.integerAt target index = a.integerAt source index ↔
            a.integerAt source index = target.greatest ∨
              a.integerAt source index ≤ target.greatest ∧
                nearestInt (a.integerAt source index) = a.integerAt source index) ∧
          (-2 ^ 53 ≤ a.integerAt source index → a.integerAt source index ≤ 2 ^ 53 →
            a.integerAt source index ≤ target.greatest →
              b.integerAt target index = a.integerAt source index) := by
  rw [← ArrayObject.convertible_check_iff hcode hsource htarget htolerance]
  by_cases hconvertible : a.Convertible target .check tolerance
  case pos =>
    obtain ⟨b, m, hrun, hconverts, hfrom⟩ :=
      convertArray_of_convertible hhost hfound hon hcode hconvertible
    rw [hrun]
    refine ⟨iff_of_true ⟨_, _, rfl⟩ hconvertible, ?_⟩
    rintro k' s' hok
    obtain ⟨rfl, rfl⟩ := EStateM.Result.ok.inj hok
    refine ⟨b, hconverts.find?, hfrom.code, hfrom.extents, hfrom.length, fun index hindex => ?_⟩
    rw [hfrom.integerAt_eq hsource htarget htolerance hindex]
    refine ⟨rfl, ArrayKind.min_nearestInt_eq_iff, fun hlow hhigh hinside => ?_⟩
    exact ArrayKind.min_nearestInt_eq_iff.mpr
      (.inr ⟨hinside, ArrayKind.nearestInt_of_small hlow hhigh⟩)
  case neg =>
    rw [convertArray_of_not_convertible hhost hfound (not_and_of_not_right _ hconvertible)]
    refine ⟨iff_of_false ?_ hconvertible, ?_⟩
    · rintro ⟨k', s', ⟨⟩⟩
    · rintro k' s' ⟨⟩

/-- The least integer that a double cannot hold, `2 ^ 53 + 1`. -/
def oneLong : ArrayObject := ⟨.numeric, 7, [1], 1, ⟨#[1, 0, 0, 0, 0, 0, 32, 0]⟩⟩

def withLong : Session where
  memory := { allocations := #[⟨some (.array oneLong), 0⟩] }

def ofLong : Container .numeric := ⟨.ofId 0, .library, .reference⟩

/-- It passes a check, and comes out as another integer. -/
theorem checked_long :
    ofLong.host = .reference ∧ withLong.memory.find? ofLong.handle = some (.array oneLong) ∧
      withLong.memory.failConversions = false ∧ ArrayKind.ofCode? oneLong.code = some .int64 ∧
      ArrayKind.int64.isInteger = true ∧ (Binary.pack false 0 : Double).isZero = true ∧
      oneLong.integerAt .int64 0 = 9007199254740993 ∧
      ∃ k' s' b, ofLong.convertArray .int64 .check (Binary.pack false 0) withLong = .ok k' s' ∧
        s'.memory.find? k'.handle = some (.array b) ∧
        b.integerAt .int64 0 = 9007199254740992 := by
  have hlong : oneLong.integerAt .int64 0 = 9007199254740993 := by decide
  have hzero : (Binary.pack false 0 : Double).isZero = true := by decide
  obtain ⟨hpasses, hresult⟩ := checked_integers (s := withLong) (k := ofLong) (a := oneLong) rfl rfl
    rfl (show ArrayKind.ofCode? oneLong.code = some .int64 from rfl) rfl
    (show ArrayKind.int64.isInteger = true from rfl) hzero
  obtain ⟨k', s', hrun⟩ := hpasses.mpr (by decide)
  obtain ⟨b, hb, -, -, -, hall⟩ := hresult k' s' hrun
  refine ⟨rfl, rfl, rfl, rfl, rfl, hzero, hlong, k', s', b, hrun, hb, ?_⟩
  rw [(hall 0 (by decide)).1, hlong]
  decide

end Container

end Custody
