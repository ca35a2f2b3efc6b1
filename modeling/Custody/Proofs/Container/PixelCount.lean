import Custody.Proofs.Container.Filled
import Custody.Proofs.Container.Place
import Custody.Proofs.Memory.Count

/-!
# Counting pixels

The pixels of an image are counted anew wherever they are gone through, in signed integers of 64
bits, while its length was counted once, unsigned and with the channels, when it was made.  What the
length says of the pixels depends on the columns: with columns, each product of extents is at most
the length, and storage that can exist bounds both; without columns the length is 0, and slices and
rows can have any product that the first count could hold.

- `ImageObject.pixelProducts`: what a count of the pixels goes through.
- `ImageObject.machinePixels`: the count by a machine that drops what does not fit.
- `ImageObject.Shaped.pixelProducts_lt_iff`: when a signed count fits.
- `ImageObject.exists_zeroed?_of_no_columns`: images without columns are made of any rows.
- `ImageObject.pixels_of_zeroed`: the pixels of every image that is made.
-/

namespace Custody

namespace ImageObject

variable {code slices rows columns channels colorSpace : Int} {interleaved : Bool} {i : ImageObject}

/-! ## Products -/

/-- The products that a count of the pixels goes through. -/
def pixelProducts (i : ImageObject) : List Int :=
  [max i.slices 1 * i.rows, max i.slices 1 * i.rows * i.columns]

/-- The number of pixels by signed integers of 64 bits that drop what does not fit. -/
def machinePixels (i : ImageObject) : UInt64 :=
  (Int64.ofInt (max i.slices 1) * Int64.ofInt i.rows * Int64.ofInt i.columns).toUInt64

theorem forall_pixelProducts {p : Int → Prop} :
    (∀ product ∈ i.pixelProducts, p product) ↔
      p (max i.slices 1 * i.rows) ∧ p (max i.slices 1 * i.rows * i.columns) := by
  simp only [pixelProducts, List.forall_mem_cons, List.not_mem_nil, false_imp_iff, implies_true,
    and_true]

theorem elementSize_pos (code : Int) : 0 < elementSize code := by
  unfold elementSize
  split
  · exact ElementType.size_pos _
  · decide

namespace Shaped

theorem rows_nonneg (h : i.Shaped) : 0 ≤ max i.slices 1 * i.rows :=
  mul_nonneg (le_max_of_le_right Int.one_nonneg) h.rows

theorem pixels_nonneg (h : i.Shaped) : 0 ≤ max i.slices 1 * i.rows * i.columns :=
  mul_nonneg h.rows_nonneg h.columns

theorem pixelProducts_nonneg (h : i.Shaped) : ∀ product ∈ i.pixelProducts, 0 ≤ product :=
  forall_pixelProducts.mpr ⟨h.rows_nonneg, h.pixels_nonneg⟩

/-- Each pixel has a channel, and the value of a channel has a byte. -/
theorem pixels_le_size (h : i.Shaped) :
    max i.slices 1 * i.rows * i.columns ≤ i.storage.size := by
  have hlength : max i.slices 1 * i.rows * i.columns ≤ i.length := by
    rw [h.length]
    exact le_mul_of_one_le_right h.pixels_nonneg h.channels
  have hroom : i.length ≤ i.storage.size :=
    (Nat.le_mul_of_pos_right _ (elementSize_pos i.code)).trans h.room
  omega

/-- With columns, storage that can exist bounds all products; without, it says nothing about the
rows. -/
theorem pixelProducts_lt_iff (h : i.Shaped) (hstorage : i.storage.size < 0x8000000000000000) :
    (∀ product ∈ i.pixelProducts, product < 0x8000000000000000) ↔
      (i.columns = 0 → max i.slices 1 * i.rows < 0x8000000000000000) := by
  rw [forall_pixelProducts]
  constructor
  · intro hproducts _
    exact hproducts.1
  · intro hempty
    have hpixels : max i.slices 1 * i.rows * i.columns < 0x8000000000000000 :=
      lt_of_le_of_lt h.pixels_le_size (by omega)
    refine ⟨?_, hpixels⟩
    rcases h.columns.eq_or_lt with hnone | hsome
    · exact hempty hnone.symm
    · exact lt_of_le_of_lt (le_mul_of_one_le_right h.rows_nonneg hsome) hpixels

/-- A machine that drops what does not fit still ends at the number of pixels, if that fits. -/
theorem toNat_machinePixels (h : i.Shaped)
    (hfits : max i.slices 1 * i.rows * i.columns < 0x10000000000000000) :
    i.machinePixels.toNat = i.pixels := by
  rw [machinePixels, ← Int64.ofInt_mul, ← Int64.ofInt_mul]
  show (Int64.ofInt (max i.slices 1 * i.rows * i.columns)).toBitVec.toNat = _
  rw [Int64.toBitVec_ofInt, BitVec.toNat_ofInt]
  exact congrArg Int.toNat (Int.emod_eq_of_lt h.pixels_nonneg hfits)

end Shaped

/-! ## New images -/

/-- The first count of an image bounds the products of its pixels, too. -/
theorem pixelProducts_of_zeroed
    (h : zeroed? code slices rows columns channels colorSpace interleaved = some i) :
    ∀ product ∈ i.pixelProducts, product < 0x10000000000000000 := by
  obtain ⟨⟨hslices, hrows, hcolumns, hchannels⟩, length, hcounted, rfl⟩ :=
    zeroed?_eq_some_iff.mp h
  have hfits := (elementCount_eq_some_iff.mp hcounted).2
  have hplane : 0 ≤ max slices 1 * rows := mul_nonneg (by omega) hrows
  rw [forall_pixelProducts]
  show max slices 1 * rows < _ ∧ max slices 1 * rows * columns < _
  have hsome : max slices 1 ≠ 0 := by omega
  rcases hrows.eq_or_lt with rfl | hrow
  · simp
  rcases hcolumns.eq_or_lt with rfl | hcolumn
  · simpa [hsome, hrow.ne'] using hfits
  · have hproduct : max slices 1 * rows * columns * channels < 0x10000000000000000 := by
      simpa [hsome, hrow.ne', hcolumn.ne', show channels ≠ 0 by omega, mul_assoc] using hfits
    have hpixels : max slices 1 * rows * columns ≤ max slices 1 * rows * columns * channels :=
      le_mul_of_one_le_right (mul_nonneg hplane hcolumns) hchannels
    have hfirst : max slices 1 * rows ≤ max slices 1 * rows * columns :=
      le_mul_of_one_le_right hplane hcolumn
    omega

/-- Without columns, every plane that the first count can hold makes an image without storage. -/
theorem exists_zeroed?_of_no_columns (hslices : 0 ≤ slices) (hrows : 0 < rows)
    (hchannels : 1 ≤ channels) (hfits : max slices 1 * rows < 0x10000000000000000) :
    ∃ i, zeroed? code slices rows 0 channels colorSpace interleaved = some i ∧
      i.storage.size = 0 := by
  have hcounted : elementCount [max slices 1, rows, 0, channels] = some 0 := by
    refine elementCount_eq_some_iff.mpr ⟨⟨?_, by simp⟩, ?_⟩
    · simpa using ⟨hrows.le, by omega⟩
    · have hsome : max slices 1 ≠ 0 := by omega
      simpa [hsome, hrows.ne'] using hfits
  refine ⟨_, zeroed?_eq_some_iff.mpr
    ⟨⟨hslices, hrows.le, le_rfl, hchannels⟩, 0, hcounted, rfl⟩, ?_⟩
  rw [Storage.size_allocate]
  simp [Storage.words]

/--
An image that is made has a value for each channel of each pixel, and a machine that drops what does
not fit counts its pixels right.  No product on the way reaches the end of the unsigned integers.
With storage that can exist, all products are signed integers exactly if the slices and rows of an
image without columns are few enough; with columns they always are.  Nothing keeps an image without
columns from having more, as long as the first count can hold them.
-/
theorem pixels_of_zeroed
    (h : zeroed? code slices rows columns channels colorSpace interleaved = some i) :
    i.pixels * i.channels.toNat = i.length ∧
    i.machinePixels.toNat = i.pixels ∧
    (∀ product ∈ i.pixelProducts, 0 ≤ product ∧ product < 0x10000000000000000) ∧
    (i.storage.size < 0x8000000000000000 →
      ((∀ product ∈ i.pixelProducts, product < 0x8000000000000000) ↔
        (columns = 0 → max slices 1 * rows < 0x8000000000000000))) := by
  have hshaped := shaped_zeroed? h
  have hproducts := pixelProducts_of_zeroed h
  have hfits := (forall_pixelProducts.mp hproducts).2
  refine ⟨hshaped.pixels_mul, hshaped.toNat_machinePixels hfits, fun product hproduct =>
    ⟨hshaped.pixelProducts_nonneg product hproduct, hproducts product hproduct⟩, fun hstorage => ?_⟩
  obtain ⟨-, length, -, rfl⟩ := zeroed?_eq_some_iff.mp h
  exact hshaped.pixelProducts_lt_iff hstorage

/-- Two slices of the most rows that an extent can say, without columns: an image of no pixels, for
which the product of slices and rows is no signed integer. -/
theorem pixels_of_no_columns :
    ∃ i, zeroed? PixelKind.byte.code 2 0x7fffffffffffffff 0 1 0 true = some i ∧
      i.pixels * i.channels.toNat = i.length ∧ i.machinePixels.toNat = 0 ∧
      ¬ ∀ product ∈ i.pixelProducts, product < 0x8000000000000000 := by
  obtain ⟨i, hmade, hempty⟩ : ∃ i,
      zeroed? PixelKind.byte.code 2 0x7fffffffffffffff 0 1 0 true = some i ∧
        i.storage.size = 0 :=
    exists_zeroed?_of_no_columns (by decide) (by decide) (by decide) (by decide)
  obtain ⟨hlength, hmachine, -, hproducts⟩ := pixels_of_zeroed hmade
  have hpixels : i.pixels = 0 := by
    obtain ⟨-, length, -, rfl⟩ := zeroed?_eq_some_iff.mp hmade
    rfl
  refine ⟨i, hmade, hlength, hmachine.trans hpixels, ?_⟩
  rw [hproducts (by omega)]
  decide

end ImageObject

end Custody
