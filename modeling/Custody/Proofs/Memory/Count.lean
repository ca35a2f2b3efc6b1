import Custody.Proofs.Memory.Shape
import Mathlib.Algebra.BigOperators.Ring.List
import Mathlib.Algebra.Order.BigOperators.GroupWithZero.List
import Mathlib.Algebra.Order.Ring.Int
import Mathlib.Data.List.TakeWhile

/-!
# Counting elements

A count multiplies the extents from the first on and stops where a product does not fit in 64 bits.
An extent of 0 makes every later product 0, so what has to fit is the product of the extents before
the first 0 (`elementCount_eq_some_iff`), and that is more than the product of all.

The number of elements is the same in every order of the extents, but whether they are counted is
not: with a 0 among them some order always counts, and every order does only if the extents that are
not 0 have a product that fits.

- `HasProduct`: the number of elements, whatever has to fit.
- `count_eq_some_iff`: a count that is under way.
- `counted_in_some_order_iff`, `counted_in_every_order_iff`: the orders of the extents.
- `elementCount_orders`: a count, its orders, and where they do not matter.
-/

namespace Custody

variable {extents order : List Int} {count n : Nat}

/-! ## Products of extents -/

/-- No extent is negative, and the product of all is `n`. -/
structure HasProduct (extents : List Int) (n : Nat) : Prop where
  nonneg : ∀ extent ∈ extents, 0 ≤ extent
  product : extents.prod = n

/-- The number of elements does not depend on the order. -/
theorem HasProduct.perm (h : HasProduct extents n) (hperm : order.Perm extents) :
    HasProduct order n :=
  ⟨fun extent hmem => h.nonneg extent (hperm.mem_iff.mp hmem), hperm.prod_eq.trans h.product⟩

/-- Extents that are not negative have a positive product, as far as none of them is 0. -/
theorem prod_takeWhile_pos (h : ∀ extent ∈ extents, 0 ≤ extent) :
    0 < (extents.takeWhile (· ≠ 0)).prod := by
  apply List.prod_pos
  intro extent hmem
  have hpos := h extent ((List.takeWhile_sublist _).mem hmem)
  have hne : extent ≠ 0 := by simpa using List.mem_takeWhile_imp hmem
  omega

theorem takeWhile_of_zero_notMem (h : 0 ∉ extents) : extents.takeWhile (· ≠ 0) = extents := by
  rw [List.takeWhile_eq_self_iff]
  intro extent hmem
  have hne : extent ≠ 0 := fun hzero => h (hzero ▸ hmem)
  simpa using hne

/-- The extents before the first 0 are among those that are not 0. -/
theorem prod_takeWhile_le_prod_filter (h : ∀ extent ∈ extents, 0 ≤ extent) :
    (extents.takeWhile (· ≠ 0)).prod ≤ (extents.filter (· ≠ 0)).prod := by
  have hsplit : extents.filter (· ≠ 0) = extents.takeWhile (· ≠ 0) ++
      (extents.dropWhile (· ≠ 0)).filter (· ≠ 0) := by
    conv_lhs => rw [← List.takeWhile_append_dropWhile (p := (· ≠ 0)) (l := extents)]
    rw [List.filter_append, List.filter_eq_self.mpr fun _ => List.mem_takeWhile_imp]
  have hrest : 0 < ((extents.dropWhile (· ≠ 0)).filter (· ≠ 0)).prod := by
    apply List.prod_pos
    intro extent hmem
    obtain ⟨hdropped, hne⟩ := List.mem_filter.mp hmem
    have hpos := h extent ((List.dropWhile_sublist _).mem hdropped)
    have hne : extent ≠ 0 := by simpa using hne
    omega
  rw [hsplit, List.prod_append]
  exact le_mul_of_one_le_right (prod_takeWhile_pos h).le hrest

/-! ## Counts -/

/-- A count that is under way goes through exactly if it fits up to the first extent of 0. -/
theorem count_eq_some_iff (hcount : count < 0x10000000000000000) :
    extents.foldlM extend count = some n ↔
      (∀ extent ∈ extents, 0 ≤ extent) ∧
        count * (extents.takeWhile (· ≠ 0)).prod < 0x10000000000000000 ∧
        (n : Int) = count * extents.prod := by
  induction extents generalizing count with
  | nil =>
    have hfits : (count : Int) < 0x10000000000000000 := by omega
    simp [hfits, eq_comm]
  | cons extent rest ih =>
    rw [List.foldlM_cons, Option.bind_eq_bind, Option.bind_eq_some_iff]
    rcases lt_trichotomy extent 0 with hneg | rfl | hpos
    · -- a negative extent is not counted
      constructor
      · rintro ⟨next, hnext, -⟩
        have := (extend_eq_some_iff.mp hnext).1
        omega
      · rintro ⟨hnonneg, -⟩
        have := hnonneg extent (by simp)
        omega
    · -- from a 0 on there is nothing left that could be too much
      have hzero : extend count 0 = some 0 := extend_eq_some_iff.mpr (by simp)
      have hrest : rest.foldlM extend 0 = some n ↔ (∀ other ∈ rest, 0 ≤ other) ∧ n = 0 := by
        rw [ih (by decide)]
        simp
      have hfits : (count : Int) < 0x10000000000000000 := by omega
      simp [hzero, hrest, hfits]
    · -- the product with this extent has to fit by itself, and it does if a longer one does
      have hcast : ((count * extent.toNat : Nat) : Int) = count * extent := by
        rw [Int.natCast_mul, Int.toNat_of_nonneg hpos.le]
      have hleading : (extent :: rest).takeWhile (· ≠ 0) = extent :: rest.takeWhile (· ≠ 0) :=
        List.takeWhile_cons_of_pos (by simpa using hpos.ne')
      rw [hleading, List.prod_cons, List.prod_cons, ← mul_assoc, ← mul_assoc, ← hcast]
      constructor
      · rintro ⟨next, hnext, hrest⟩
        obtain ⟨-, hfits, rfl⟩ := extend_eq_some_iff.mp hnext
        obtain ⟨hnonneg, hproduct⟩ := (ih hfits).mp hrest
        exact ⟨by simpa using ⟨hpos.le, hnonneg⟩, hproduct⟩
      · rintro ⟨hnonneg, hproduct, hn⟩
        have hothers : ∀ other ∈ rest, 0 ≤ other := fun other hmem => hnonneg other (by simp [hmem])
        have hfits : count * extent.toNat < 0x10000000000000000 := by
          have hle := le_mul_of_one_le_right (Int.natCast_nonneg (count * extent.toNat))
            (prod_takeWhile_pos hothers)
          omega
        exact ⟨_, extend_eq_some_iff.mpr ⟨hpos.le, hfits, rfl⟩,
          (ih hfits).mpr ⟨hothers, hproduct, hn⟩⟩

theorem elementCount_eq_some_iff :
    elementCount extents = some n ↔
      HasProduct extents n ∧ (extents.takeWhile (· ≠ 0)).prod < 0x10000000000000000 := by
  rw [elementCount, count_eq_some_iff (by decide), Nat.cast_one, one_mul, one_mul]
  exact ⟨fun ⟨hnonneg, hfits, hproduct⟩ => ⟨⟨hnonneg, hproduct.symm⟩, hfits⟩,
    fun ⟨h, hfits⟩ => ⟨h.nonneg, hfits, h.product.symm⟩⟩

/-- Without an extent of 0 the product of all has to fit, and nothing else. -/
theorem elementCount_eq_some_iff_of_zero_notMem (hzero : 0 ∉ extents) :
    elementCount extents = some n ↔ HasProduct extents n ∧ n < 0x10000000000000000 := by
  rw [elementCount_eq_some_iff, takeWhile_of_zero_notMem hzero]
  refine and_congr_right fun h => ?_
  rw [h.product]
  omega

/-! ## Orders of the extents -/

/-- A 0 in front leaves nothing that could be too much. -/
theorem counted_in_some_order_iff :
    (∃ order, order.Perm extents ∧ elementCount order = some n) ↔
      HasProduct extents n ∧ n < 0x10000000000000000 := by
  by_cases hzero : (0 : Int) ∈ extents
  · have hperm : (0 :: extents.erase 0).Perm extents := (List.perm_cons_erase hzero).symm
    have hnone : ∀ {n}, HasProduct extents n → n = 0 := fun h => by
      have := h.product
      rw [List.prod_eq_zero hzero] at this
      omega
    constructor
    · rintro ⟨order, horder, hcounted⟩
      have h := (elementCount_eq_some_iff.mp hcounted).1.perm horder.symm
      exact ⟨h, by have := hnone h; omega⟩
    · rintro ⟨h, -⟩
      exact ⟨_, hperm, elementCount_eq_some_iff.mpr ⟨h.perm hperm, by simp⟩⟩
  · constructor
    · rintro ⟨order, horder, hcounted⟩
      rw [elementCount_eq_some_iff_of_zero_notMem fun hmem => hzero (horder.mem_iff.mp hmem)]
        at hcounted
      exact ⟨hcounted.1.perm horder.symm, hcounted.2⟩
    · intro h
      exact ⟨extents, .refl _, (elementCount_eq_some_iff_of_zero_notMem hzero).mpr h⟩

/-- An order with the extents of 0 at its end counts only if the others have a product that
fits. -/
theorem counted_in_every_order_iff :
    (∀ order, order.Perm extents → elementCount order = some n) ↔
      HasProduct extents n ∧ (extents.filter (· ≠ 0)).prod < 0x10000000000000000 := by
  constructor
  · intro h
    have hcounted := elementCount_eq_some_iff.mp (h extents (.refl _))
    have hlast := elementCount_eq_some_iff.mp
      (h _ (List.filter_append_perm (fun extent : Int => decide (extent ≠ 0)) extents))
    refine ⟨hcounted.1, lt_of_le_of_lt ?_ hlast.2⟩
    rw [List.takeWhile_append_of_pos fun _ hmem => (List.mem_filter.mp hmem).2, List.prod_append]
    have hnonneg : 0 ≤ (extents.filter (· ≠ 0)).prod :=
      List.prod_nonneg fun extent hmem => hcounted.1.nonneg extent (List.mem_of_mem_filter hmem)
    refine le_mul_of_one_le_right hnonneg (prod_takeWhile_pos fun extent hmem => ?_)
    exact hcounted.1.nonneg extent (List.mem_of_mem_filter hmem)
  · rintro ⟨h, hfits⟩ order horder
    have horders := h.perm horder
    refine elementCount_eq_some_iff.mpr ⟨horders, lt_of_le_of_lt ?_ hfits⟩
    calc (order.takeWhile (· ≠ 0)).prod
      _ ≤ (order.filter (· ≠ 0)).prod := prod_takeWhile_le_prod_filter horders.nonneg
      _ = (extents.filter (· ≠ 0)).prod := (horder.filter _).prod_eq

/--
The extents of an object are counted exactly if none is negative and those before the first 0 have a
product that fits; the count is then the product of all.  Some order of them counts exactly if the
product of all fits, which it always does with a 0 among them, while all orders count exactly if the
extents that are not 0 have a product that fits.  So the order does not matter as long as there is
no 0.
-/
theorem elementCount_orders (extents : List Int) (n : Nat) :
    (elementCount extents = some n ↔
      HasProduct extents n ∧ (extents.takeWhile (· ≠ 0)).prod < 0x10000000000000000) ∧
    ((∃ order, order.Perm extents ∧ elementCount order = some n) ↔
      HasProduct extents n ∧ n < 0x10000000000000000) ∧
    ((∀ order, order.Perm extents → elementCount order = some n) ↔
      HasProduct extents n ∧ (extents.filter (· ≠ 0)).prod < 0x10000000000000000) ∧
    (0 ∉ extents →
      (elementCount extents = some n ↔ HasProduct extents n ∧ n < 0x10000000000000000)) :=
  ⟨elementCount_eq_some_iff, counted_in_some_order_iff, counted_in_every_order_iff,
    elementCount_eq_some_iff_of_zero_notMem⟩

/-- A product that does not fit is noticed before the 0 that comes after it, and not after a 0. -/
theorem elementCount_zero_last :
    HasProduct [4, 0x4000000000000000, 0] 0 ∧ elementCount [4, 0x4000000000000000, 0] = none ∧
      ∃ order, order.Perm [4, 0x4000000000000000, 0] ∧ elementCount order = some 0 := by
  have hproduct : HasProduct [4, 0x4000000000000000, 0] 0 := ⟨by decide, by decide⟩
  exact ⟨hproduct, by decide, (elementCount_orders _ 0).2.1.mpr ⟨hproduct, by decide⟩⟩

end Custody
