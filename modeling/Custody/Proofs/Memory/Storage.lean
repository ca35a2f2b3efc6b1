import Custody.Memory.Storage
import Mathlib.Data.List.Range

/-!
# Elements in storage

Elements of one, two, four, eight or sixteen bytes share storage that is given out in words.  What
is written at an index is read there again, and the elements at all other indices stay as they are,
also those in the same word.  From bytes to values, from values to elements, and from one element to
many that are written one after another.

- `Storage.byte_setValue`: a value takes just the bytes of its width.
- `Storage.read_write_self`, `Storage.read_write_of_ne`: one element.
- `Storage.read_writeFrom`: a row of elements.
- `Storage.read_foldl_write`: elements in any order.
-/

namespace Custody

-- powers are those of the core library, whatever else is in scope
attribute [local instance (high)] instPowNat

namespace Storage

/-! ## The size of storage -/

theorem size_allocate (length size : Nat) :
    (allocate length size).size = 8 * words length size := by
  simp [allocate, Storage.size]

@[simp] theorem size_setByte (s : Storage) (offset : Nat) (value : UInt8) :
    (s.setByte offset value).size = s.size := by
  simp [setByte, Storage.size]

@[simp] theorem size_setValue (s : Storage) (offset width n : Nat) :
    (s.setValue offset width n).size = s.size := by
  induction width generalizing s offset n with
  | zero => rfl
  | succ width ih => rw [setValue, ih, size_setByte]

@[simp] theorem size_write (s : Storage) (width index : Nat) (element : BitVec (8 * width)) :
    (s.write width index element).size = s.size :=
  size_setValue ..

@[simp] theorem size_writeFrom (s : Storage) (width index : Nat)
    (elements : List (BitVec (8 * width))) : (s.writeFrom width index elements).size = s.size := by
  induction elements generalizing s index with
  | nil => rfl
  | cons element rest ih => rw [writeFrom, ih, size_write]

/-- Whole words have room for all elements. -/
theorem le_words (length size : Nat) : length * size ≤ 8 * words length size := by
  unfold words
  omega

theorem room_allocate (length size : Nat) : length * size ≤ (allocate length size).size :=
  (size_allocate length size).symm ▸ le_words length size

/-! ## Bytes -/

theorem byte_setByte (s : Storage) (offset other : Nat) (value : UInt8) :
    (s.setByte offset value).byte other =
      if offset = other ∧ offset < s.size then value else s.byte other := by
  simp only [byte, setByte, Storage.size, Array.getD_eq_getD_getElem?,
    Array.getElem?_setIfInBounds]
  by_cases hsame : offset = other
  · subst hsame
    by_cases hinside : offset < s.bytes.size
    · simp [hinside]
    · simp [hinside]
  · simp [hsame]

/-! ## Values -/

/-- A value is made of the bytes of its width. -/
theorem value_congr {s s' : Storage} {offset width : Nat}
    (h : ∀ i < width, s.byte (offset + i) = s'.byte (offset + i)) :
    s.value offset width = s'.value offset width := by
  induction width generalizing offset with
  | zero => rfl
  | succ width ih =>
    have hrest : ∀ i < width, s.byte (offset + 1 + i) = s'.byte (offset + 1 + i) := by
      intro i hi
      simpa [Nat.add_assoc, Nat.add_comm 1 i] using h (i + 1) (by omega)
    rw [value, value, ih hrest, show s.byte offset = s'.byte offset from h 0 (by omega)]

/-- A byte outside the width of a value that is set stays as it is. -/
theorem byte_setValue_of_outside (s : Storage) {offset width other : Nat} (n : Nat)
    (houtside : other < offset ∨ offset + width ≤ other) :
    (s.setValue offset width n).byte other = s.byte other := by
  induction width generalizing s offset n with
  | zero => rfl
  | succ width ih => rw [setValue, ih _ _ (by omega), byte_setByte, if_neg (by omega)]

/-- What is set is the value, as far as it fits the width. -/
theorem value_setValue_self (s : Storage) {offset width : Nat} (n : Nat)
    (hroom : offset + width ≤ s.size) :
    (s.setValue offset width n).value offset width = n % 256 ^ width := by
  induction width generalizing s offset n with
  | zero => simp [value, Nat.mod_one]
  | succ width ih =>
    -- the first byte is set once, and the rest of the value lies beyond it
    have hfirst : (s.setValue offset (width + 1) n).byte offset = UInt8.ofNat (n % 256) := by
      rw [setValue, byte_setValue_of_outside _ _ (by omega), byte_setByte, if_pos (by omega)]
    have hrest : (s.setValue offset (width + 1) n).value (offset + 1) width =
        n / 256 % 256 ^ width := by
      rw [setValue]
      exact ih _ _ (by rw [size_setByte]; omega)
    have hbyte : (UInt8.ofNat (n % 256)).toNat = n % 256 := by
      simp
    rw [value, hfirst, hrest, hbyte, Nat.pow_succ', Nat.mod_mul]

theorem value_setValue_of_disjoint (s : Storage) {offset width other width' : Nat} (n : Nat)
    (hdisjoint : offset + width ≤ other ∨ other + width' ≤ offset) :
    (s.setValue offset width n).value other width' = s.value other width' :=
  value_congr fun _ hi => byte_setValue_of_outside s n (by omega)

/-! ## Elements -/

variable {width : Nat}

/-- An element is read back where it was written. -/
theorem read_write_self (s : Storage) {index : Nat} (element : BitVec (8 * width))
    (hroom : (index + 1) * width ≤ s.size) :
    (s.write width index element).read width index = element := by
  have hfits : element.toNat < 256 ^ width := by
    rw [show 256 = 2 ^ 8 from rfl, ← Nat.pow_mul]
    exact element.isLt
  have hinside : index * width + width ≤ s.size := by
    rwa [← Nat.succ_mul]
  rw [read, write, value_setValue_self s _ hinside, Nat.mod_eq_of_lt hfits, BitVec.ofNat_toNat,
    BitVec.setWidth_eq]

/-- An element at another index is not touched, also where both lie in one word. -/
theorem read_write_of_ne (s : Storage) {index other : Nat} (element : BitVec (8 * width))
    (hne : index ≠ other) :
    (s.write width index element).read width other = s.read width other := by
  have hdisjoint : index * width + width ≤ other * width ∨
      other * width + width ≤ index * width := by
    rcases Nat.lt_or_gt_of_ne hne with hlt | hgt
    · left
      rw [← Nat.succ_mul]
      exact Nat.mul_le_mul_right width hlt
    · right
      rw [← Nat.succ_mul]
      exact Nat.mul_le_mul_right width hgt
  rw [read, write, value_setValue_of_disjoint s _ hdisjoint, read]

/-- No byte outside of the element is touched, be it that of a neighbour or of the padding. -/
theorem byte_write_of_outside (s : Storage) {index other : Nat} (element : BitVec (8 * width))
    (houtside : other < index * width ∨ (index + 1) * width ≤ other) :
    (s.write width index element).byte other = s.byte other := by
  rw [Nat.succ_mul] at houtside
  exact byte_setValue_of_outside s element.toNat houtside

/-! ## Many elements -/

theorem length_elements (s : Storage) (width count : Nat) :
    (s.elements width count).length = count := by
  simp [elements]

theorem getElem?_elements (s : Storage) (width count index : Nat) :
    (s.elements width count)[index]? =
      if index < count then some (s.read width index) else none := by
  simp only [elements, List.getElem?_map]
  split
  case isTrue hinside => rw [List.getElem?_range hinside, Option.map_some]
  case isFalse houtside => simp [houtside]

/-- Of the first elements the one that was overwritten is another, if it is among them. -/
theorem elements_write (s : Storage) {count : Nat} (index : Nat) (element : BitVec (8 * width))
    (hroom : count * width ≤ s.size) :
    (s.write width index element).elements width count =
      (s.elements width count).set index element := by
  apply List.ext_getElem?
  intro other
  rw [getElem?_elements, List.getElem?_set, length_elements, getElem?_elements]
  by_cases hsame : index = other
  · subst hsame
    rw [if_pos rfl]
    split
    case isTrue hinside =>
      rw [read_write_self s element ((Nat.mul_le_mul_right width hinside).trans hroom)]
    case isFalse => rfl
  · rw [if_neg hsame, read_write_of_ne s element hsame]

/-- A row of elements is read back where it was written, and what lies before it or behind it is as
it was. -/
theorem read_writeFrom (s : Storage) {index : Nat} (elements : List (BitVec (8 * width)))
    (hroom : (index + elements.length) * width ≤ s.size) (other : Nat) :
    (s.writeFrom width index elements).read width other =
      if index ≤ other then elements.getD (other - index) (s.read width other)
      else s.read width other := by
  induction elements generalizing s index with
  | nil => simp [writeFrom]
  | cons element rest ih =>
    have hrest : (index + 1 + rest.length) * width ≤ (s.write width index element).size := by
      rw [size_write]
      simpa [Nat.add_assoc, Nat.add_comm 1] using hroom
    have hfirst : (index + 1) * width ≤ s.size :=
      (Nat.mul_le_mul_right width (by simp)).trans hroom
    rw [writeFrom, ih _ hrest]
    rcases Nat.lt_trichotomy index other with hlt | rfl | hgt
    · obtain ⟨place, rfl⟩ : ∃ place, other = index + 1 + place := ⟨other - (index + 1), by omega⟩
      have hplace : index + 1 + place - index = place + 1 := by omega
      rw [if_pos (by omega), if_pos (by omega), read_write_of_ne s _ (by omega), hplace,
        Nat.add_sub_cancel_left, List.getD_cons_succ]
    · rw [if_neg (by omega), if_pos (Nat.le_refl _), read_write_self s _ hfirst]
      simp
    · rw [if_neg (by omega), if_neg (by omega), read_write_of_ne s _ (by omega)]

/-- The elements of storage that was filled from the beginning. -/
theorem elements_writeFrom (s : Storage) (elements : List (BitVec (8 * width)))
    (hroom : elements.length * width ≤ s.size) :
    (s.writeFrom width 0 elements).elements width elements.length = elements := by
  apply List.ext_getElem?
  intro index
  rw [getElem?_elements]
  split
  case isTrue hinside =>
    rw [read_writeFrom s elements (by rwa [Nat.zero_add]), if_pos (Nat.zero_le _), Nat.sub_zero]
    simp [hinside]
  case isFalse houtside => simp [Nat.not_lt.mp houtside]

section Places

variable {α : Type} (index : α → Nat) (element : α → BitVec (8 * width))

/-- Elements that are written elsewhere, in any order, leave an element as it is. -/
theorem read_foldl_write_of_notMem (s : Storage) {places : List α} {other : Nat}
    (hother : other ∉ places.map index) :
    (places.foldl (fun s place => s.write width (index place) (element place)) s).read width other =
      s.read width other := by
  induction places generalizing s with
  | nil => rfl
  | cons place rest ih =>
    rw [List.map_cons, List.mem_cons, not_or] at hother
    rw [List.foldl_cons, ih _ hother.2, read_write_of_ne s _ (Ne.symm hother.1)]

/-- Elements that are written in any order, each at an index of its own, are all read back. -/
theorem read_foldl_write (s : Storage) {places : List α} (hnodup : (places.map index).Nodup)
    (hroom : ∀ place ∈ places, (index place + 1) * width ≤ s.size) {place : α}
    (hplace : place ∈ places) :
    (places.foldl (fun s place => s.write width (index place) (element place)) s).read width
      (index place) = element place := by
  induction places generalizing s with
  | nil => simp at hplace
  | cons first rest ih =>
    rw [List.map_cons, List.nodup_cons] at hnodup
    rw [List.foldl_cons]
    rcases List.mem_cons.mp hplace with rfl | hlater
    · rw [read_foldl_write_of_notMem index element _ hnodup.1,
        read_write_self s _ (hroom place List.mem_cons_self)]
    · refine ih _ hnodup.2 (fun other hother => ?_) hlater
      rw [size_write]
      exact hroom other (List.mem_cons_of_mem first hother)

end Places

end Storage

end Custody
