import Custody.Proofs.Container.Dispatch
import Custody.Proofs.Memory.Storage
import Mathlib.Algebra.Ring.Int.Defs

/-!
# Shapes

An array has as many elements as the product of its extents says, and storage for just these, in
whole words; an image likewise, where no slices count as one.  Each of the ways in which an object
comes to exist computes its length and its storage by itself: a new object from a request, a
converted one from its source, each with an element size of its own.  They agree on the shape
(`ArrayObject.Shaped`, `ImageObject.Shaped`), and overwriting elements in place keeps it.
-/

namespace Custody

/-! ## Counting elements -/

theorem extend_eq_some_iff {count n : Nat} {extent : Int} :
    extend count extent = some n ↔
      0 ≤ extent ∧ count * extent.toNat < 0x10000000000000000 ∧ n = count * extent.toNat := by
  unfold extend
  split
  case isTrue hneg => simp [hneg]
  case isFalse hpos =>
    split
    case isTrue hfits => simp [hfits, Int.not_lt.mp hpos, eq_comm]
    case isFalse hover => simp [hover]

/-- A count is a product of extents that are not negative. -/
private theorem count_spec {extents : List Int} {count n : Nat}
    (h : extents.foldlM extend count = some n) :
    (∀ extent ∈ extents, 0 ≤ extent) ∧ (n : Int) = count * extents.prod := by
  induction extents generalizing count with
  | nil =>
    obtain rfl : count = n := by simpa using h
    simp
  | cons extent rest ih =>
    rw [List.foldlM_cons] at h
    obtain ⟨next, hextend, hrest⟩ := Option.bind_eq_some_iff.mp h
    obtain ⟨hpos, -, rfl⟩ := extend_eq_some_iff.mp hextend
    obtain ⟨hothers, hcount⟩ := ih hrest
    refine ⟨by simpa using ⟨hpos, hothers⟩, ?_⟩
    rw [hcount, List.prod_cons, Int.natCast_mul, Int.toNat_of_nonneg hpos, Int.mul_assoc]

theorem elementCount_spec {extents : List Int} {n : Nat} (h : elementCount extents = some n) :
    (∀ extent ∈ extents, 0 ≤ extent) ∧ (n : Int) = extents.prod := by
  obtain ⟨hextents, hcount⟩ := count_spec h
  exact ⟨hextents, hcount.trans (Int.one_mul _)⟩

/-! ## Shapes -/

theorem ElementType.size_pos (t : ElementType) : 0 < t.size := by
  cases t <;> decide

/-- The extents of an array, its length and its storage agree, where elements have `size` bytes. -/
structure ArrayObject.Shaped (a : ArrayObject) (size : Nat) : Prop where
  extents : ∀ extent ∈ a.extents, 0 ≤ extent
  length : (a.length : Int) = a.extents.prod
  storage : a.storage.size = 8 * Storage.words a.length size

/-- The extents of an image, its length and its storage agree. -/
structure ImageObject.Shaped (i : ImageObject) : Prop where
  slices : 0 ≤ i.slices
  rows : 0 ≤ i.rows
  columns : 0 ≤ i.columns
  channels : 1 ≤ i.channels
  length : (i.length : Int) = max i.slices 1 * i.rows * i.columns * i.channels
  storage : i.storage.size = 8 * Storage.words i.length (ImageObject.elementSize i.code)

namespace ArrayObject

variable {a : ArrayObject} {size : Nat}

theorem shaped_sized? {category : ArrayCategory} {code : Int} {extents : List Int}
    (h : sized? category code extents size = some a) : a.Shaped size := by
  obtain ⟨length, hlength, rfl⟩ := Option.map_eq_some_iff.mp h
  obtain ⟨hextents, hproduct⟩ := elementCount_spec hlength
  exact ⟨hextents, hproduct, Storage.size_allocate length size⟩

theorem elementSize?_code {category : ArrayCategory} (kind : (BufferCategory.array category).Kind) :
    elementSize? category kind.code = some kind.element.size := by
  rw [elementSize?, BufferCategory.kindOfCode?_eq_some_iff.mpr rfl, Option.map_some]

/-- The elements of a new array have the size of their kind. -/
theorem shaped_zeroed? {category : ArrayCategory} {code : Int} {extents : List Int}
    (h : zeroed? category code extents = some a) :
    ∃ size, elementSize? a.category a.code = some size ∧ a.Shaped size := by
  obtain ⟨size, hsize, hsized⟩ := Option.bind_eq_some_iff.mp h
  refine ⟨size, ?_, shaped_sized? hsized⟩
  obtain ⟨length, -, rfl⟩ := Option.map_eq_some_iff.mp hsized
  exact hsize

/-- The storage has room for all elements. -/
theorem Shaped.room (h : a.Shaped size) : a.length * size ≤ a.storage.size :=
  h.storage ▸ Storage.le_words a.length size

/-- Elements that are overwritten in place do not change the shape. -/
theorem Shaped.setStorage (h : a.Shaped size) {storage : Storage}
    (hsize : storage.size = a.storage.size) : { a with storage }.Shaped size :=
  ⟨h.extents, h.length, hsize.trans h.storage⟩

/-- A conversion keeps the extents, and gives the elements the size of their new kind. -/
theorem Shaped.convert? (h : a.Shaped size) (hnumeric : a.category = .numeric) {target : ArrayKind}
    {method : ConvertMethod} {tolerance : Number.Double} {converted : ArrayObject}
    (hconverted : a.convert? target method tolerance = some converted) :
    ∃ size', elementSize? converted.category converted.code = some size' ∧
      converted.Shaped size' := by
  unfold ArrayObject.convert? at hconverted
  obtain ⟨source, -, hconverted⟩ := Option.bind_eq_some_iff.mp hconverted
  obtain ⟨elements, -, hconverted⟩ := Option.bind_eq_some_iff.mp hconverted
  obtain rfl := Option.some.inj hconverted
  refine ⟨target.element.size, ?_, h.extents, h.length, ?_⟩
  · show elementSize? a.category target.code = some target.element.size
    rw [hnumeric]
    exact @elementSize?_code .numeric target
  · rw [Storage.size_writeFrom, Storage.size_allocate]

end ArrayObject

namespace ImageObject

variable {i : ImageObject}

theorem elementSize_code (kind : PixelKind) : elementSize kind.code = kind.element.size := by
  cases kind <;> rfl

theorem shaped_zeroed? {code slices rows columns channels colorSpace : Int} {interleaved : Bool}
    (h : zeroed? code slices rows columns channels colorSpace interleaved = some i) :
    i.Shaped := by
  unfold zeroed? at h
  split at h
  case isTrue => cases h
  case isFalse hextents =>
    obtain ⟨length, hlength, rfl⟩ := Option.map_eq_some_iff.mp h
    obtain ⟨-, hproduct⟩ := elementCount_spec hlength
    simp only [not_or, not_lt] at hextents
    obtain ⟨hslices, hrows, hcolumns, hchannels⟩ := hextents
    refine ⟨hslices, hrows, hcolumns, hchannels, ?_, Storage.size_allocate ..⟩
    simpa [mul_assoc] using hproduct

/-- The storage has room for all channel values. -/
theorem Shaped.room (h : i.Shaped) : i.length * elementSize i.code ≤ i.storage.size :=
  h.storage ▸ Storage.le_words i.length (elementSize i.code)

theorem Shaped.setStorage (h : i.Shaped) {storage : Storage}
    (hsize : storage.size = i.storage.size) : { i with storage }.Shaped :=
  ⟨h.slices, h.rows, h.columns, h.channels, h.length, hsize.trans h.storage⟩

/-- A conversion keeps the extents, and gives the channel values the size of their new kind. -/
theorem Shaped.convert? (h : i.Shaped) {target : PixelKind} {interleaved : Bool}
    {converted : ImageObject} (hconverted : i.convert? target interleaved = some converted) :
    converted.Shaped := by
  obtain ⟨source, -, rfl⟩ := Option.map_eq_some_iff.mp hconverted
  refine ⟨h.slices, h.rows, h.columns, h.channels, h.length, ?_⟩
  -- values are written one by one into storage of the size of the target
  have hwritten (write : Storage → Nat × Nat → Storage)
      (hwrite : ∀ storage place, (write storage place).size = storage.size)
      (places : List (Nat × Nat)) (storage : Storage) :
      (places.foldl write storage).size = storage.size := by
    induction places generalizing storage with
    | nil => rfl
    | cons place rest ih => rw [List.foldl_cons, ih, hwrite]
  rw [hwritten _ fun storage place => Storage.size_write ..]
  rw [Storage.size_allocate, elementSize_code]

end ImageObject

/-- The extents, the length and the storage of an object agree.  The elements of an array that was
built under a code have eight bytes, and all others the size that their code asks for.  Only arrays
are built in this way. -/
def Object.Shaped (coded : Prop) : Object → Prop
  | .array a =>
    (coded → a.Shaped 8) ∧
      (¬ coded → ∃ size, ArrayObject.elementSize? a.category a.code = some size ∧ a.Shaped size)
  | .image i => ¬ coded ∧ i.Shaped
  | .list _ => ¬ coded

namespace Object.Shaped

variable {coded coded' : Prop}

theorem congr {object : Object} (h : object.Shaped coded) (hcoded : coded' ↔ coded) :
    object.Shaped coded' := by
  rwa [propext hcoded]

/-- An array is shaped, with whatever size its elements have. -/
theorem array {a : ArrayObject} (h : (Object.array a).Shaped coded) : ∃ size, a.Shaped size := by
  by_cases hcoded : coded
  · exact ⟨8, h.1 hcoded⟩
  · obtain ⟨size, -, harray⟩ := h.2 hcoded
    exact ⟨size, harray⟩

end Object.Shaped

end Custody
