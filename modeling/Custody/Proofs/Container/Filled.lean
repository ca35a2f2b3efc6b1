import Custody.Container.Buffer
import Custody.Proofs.Container.Create
import Custody.Proofs.Container.Place

/-!
# Images made of values

An image of given values is asked for as a zeroed one, and filled afterwards.  Two counts have to
agree for that: the library counts the extents as they are given, and the host counts an image
without slices as one slice.  They differ where the slices are given as zero: the library then
expects no values at all, while the host may give an image that has some, and filling it is a
mistake.

- `elementCount_cons_one`, `elementCount_cons_zero`: the two counts.
- `Buffer.fill_of_live`: filling a buffer of any category.
- `Buffer.imageFrom_of_refused`, `Buffer.imageFrom_of_given`: how asking and filling ends.
- `ImageExtents.length_eq_iff`: when the two counts agree.
- `Buffer.MadeOf.holds`: what a filled image shows.
- `Buffer.imageOf_ends`: how making an image of values ends, and what the image then holds.
-/

namespace Custody

open SessionM

/-! ## Counts -/

/-- One slice more does not change a count. -/
theorem elementCount_cons_one (extents : List Int) :
    elementCount (1 :: extents) = elementCount extents := by
  have hone : extend 1 1 = some 1 := by decide
  rw [elementCount, List.foldlM_cons, hone]
  rfl

/-- A count that begins with zero is zero, unless an extent is negative. -/
theorem elementCount_cons_zero {extents : List Int} (h : ∀ extent ∈ extents, 0 ≤ extent) :
    elementCount (0 :: extents) = some 0 := by
  have hzero : extend 1 0 = some 0 := by decide
  have hrest : extents.foldlM extend 0 = some 0 := by
    -- from zero on, every extent leaves zero
    induction extents with
    | nil => rfl
    | cons extent rest ih =>
      have hextent : extend 0 extent = some 0 :=
        extend_eq_some_iff.mpr ⟨h extent (by simp), by simp, by simp⟩
      rw [List.foldlM_cons, hextent]
      exact ih fun other hother => h other (by simp [hother])
  rw [elementCount, List.foldlM_cons, hzero]
  exact hrest

namespace ImageObject

variable {code slices rows columns channels colorSpace : Int} {interleaved : Bool} {i : ImageObject}

/-- What a zeroed image says of itself. -/
theorem zeroed?_eq_some_iff :
    zeroed? code slices rows columns channels colorSpace interleaved = some i ↔
      (0 ≤ slices ∧ 0 ≤ rows ∧ 0 ≤ columns ∧ 1 ≤ channels) ∧
        ∃ length, elementCount [max slices 1, rows, columns, channels] = some length ∧
          i = ⟨code, slices, rows, columns, channels, colorSpace, interleaved, length,
            .allocate length (elementSize code)⟩ := by
  unfold zeroed?
  split
  case isTrue hnegative =>
    refine iff_of_false (by simp) fun hpossible => ?_
    omega
  case isFalse hpossible =>
    have hextents : 0 ≤ slices ∧ 0 ≤ rows ∧ 0 ≤ columns ∧ 1 ≤ channels := by omega
    rw [Option.map_eq_some_iff]
    constructor
    · rintro ⟨length, hlength, rfl⟩
      exact ⟨hextents, length, hlength, rfl⟩
    · rintro ⟨-, length, hlength, rfl⟩
      exact ⟨length, hlength, rfl⟩

/-- The image with its first values overwritten. -/
def filled (i : ImageObject) (t : ElementType) (values : List t.Word) : ImageObject :=
  { i with storage := i.storage.writeFrom t.size 0 values }

end ImageObject

namespace Buffer

/-! ## Filling a buffer -/

section Fill

variable {b : BufferCategory} {kind : b.Kind} {s : Session} {t : Buffer kind} {object : Object}
  {storage : Storage}

theorem size_of_live (hhost : t.container.host = .reference)
    (hfound : s.memory.find? t.container.handle = some object)
    (hcategory : object.category = .buffer b) (hstorage : object.storage? = some storage) :
    t.size s.memory = (t.container.length s.memory).toNat := by
  have hshown : t.container.storage? s.memory = some storage :=
    (Container.storage?_of_live hhost hfound hcategory).trans hstorage
  rw [Buffer.size, hshown]

/-- As many values as the buffer has elements are written into the storage of its object. -/
theorem fill_of_live (hhost : t.container.host = .reference)
    (hfound : s.memory.find? t.container.handle = some object)
    (hcategory : object.category = .buffer b) (hstorage : object.storage? = some storage)
    {values : List kind.element.Word} (hlength : t.container.length s.memory = values.length) :
    ∃ m, t.fill values s = .ok t { s with memory := m } ∧
      m.find? t.container.handle =
        some (object.setStorage (storage.writeFrom kind.element.size 0 values)) := by
  have hshown : t.container.storage? s.memory = some storage :=
    (Container.storage?_of_live hhost hfound hcategory).trans hstorage
  have hwritten : t.writeIn 0 values s.memory =
      s.memory.setStorage t.container.handle (storage.writeFrom kind.element.size 0 values) := by
    rw [writeIn, hshown, hhost]
    exact Memory.setStorage_of_live hfound hcategory _
  have hsize : t.size s.memory = values.length := by
    rw [size_of_live hhost hfound hcategory hstorage, hlength]
    rfl
  refine ⟨t.writeIn 0 values s.memory, ?_, ?_⟩
  · rw [fill, bind_of_ok (memory_apply s), if_pos hsize]
    rfl
  · -- writing replaces the storage of the object, and the object stays where it was
    obtain ⟨id, hhandle, hobject⟩ := Memory.find?_eq_some_iff.mp hfound
    rw [hwritten, hhandle, Memory.find?_ofId]
    exact Memory.object?_setStorage_self hobject _

/-- Another number of values is a mistake. -/
theorem fill_panics (hhost : t.container.host = .reference)
    (hfound : s.memory.find? t.container.handle = some object)
    (hcategory : object.category = .buffer b) (hstorage : object.storage? = some storage)
    {values : List kind.element.Word}
    (hlength : (t.container.length s.memory).toNat ≠ values.length) :
    ∃ s', t.fill values s = .error .panic s' := by
  have hsize := size_of_live hhost hfound hcategory hstorage
  rw [fill, bind_of_ok (memory_apply s), if_neg fun hfits => hlength (hsize.symm.trans hfits)]
  exact ⟨_, rfl⟩

end Fill

variable {kind : BufferCategory.image.Kind} {s : Session}

/-- An image is filled by as many values as it has elements. -/
theorem fill_of_image {t : Buffer kind} {i : ImageObject}
    (hhost : t.container.host = .reference)
    (hfound : s.memory.find? t.container.handle = some (.image i))
    {values : List kind.element.Word} (hlength : i.length = values.length) :
    ∃ m, t.fill values s = .ok t { s with memory := m } ∧
      m.find? t.container.handle = some (.image (i.filled kind.element values)) :=
  fill_of_live hhost hfound rfl rfl
    ((Container.length_of_image hhost hfound).trans (congrArg Nat.cast hlength))

/-! ## Asking and filling -/

section From

variable {colorSpace : ColorSpace} {interleaved : Bool} {slices : Option Int}
  {rows columns channels : Int} {values : List kind.element.Word}

/-- Ask for a zeroed image, and fill it. -/
def imageFrom (kind : BufferCategory.image.Kind) (slices : Option Int)
    (rows columns channels : Int) (colorSpace : ColorSpace) (interleaved : Bool)
    (values : List kind.element.Word) : SessionM (Buffer kind) := do
  (← newImage kind slices columns rows channels colorSpace interleaved).fill values

/-- The image that the host gives for the extents. -/
def blank? (kind : BufferCategory.image.Kind) (slices : Option Int)
    (rows columns channels : Int) (colorSpace : ColorSpace) (interleaved : Bool) :
    Option ImageObject :=
  ImageObject.zeroed? kind.code (slices.getD 0) rows columns channels colorSpace.code interleaved

/-- The installed host is asked. -/
theorem imageFrom_apply (hs : s.host = some .reference) :
    imageFrom kind slices rows columns channels colorSpace interleaved values s =
      ((Container.own .image .reference (.allocation .image) fun m =>
          m.allocate ((blank? kind slices rows columns channels colorSpace interleaved).map
            .image)) >>= fun k => (⟨k⟩ : Buffer kind).fill values) s := by
  have hrequest : Host.reference.newImage
        ⟨slices, columns, rows, channels, kind.code, colorSpace.code, interleaved⟩ =
      fun m => m.allocate ((blank? kind slices rows columns channels colorSpace interleaved).map
        .image) :=
    funext fun _ => Memory.allocateImage_of_known kind colorSpace slices rows columns channels
      interleaved
  have hasked : Container.newImage
        ⟨slices, columns, rows, channels, kind.code, colorSpace.code, interleaved⟩ s =
      Container.own .image .reference (.allocation .image) (Host.reference.newImage
        ⟨slices, columns, rows, channels, kind.code, colorSpace.code, interleaved⟩) s :=
    bind_of_ok (installedHost_apply hs)
  rw [imageFrom, newImage, bind_assoc, ← hrequest]
  simp only [pure_bind]
  exact bind_of_same hasked

theorem imageFrom_of_refused (hs : s.host = some .reference)
    (hrefused : s.memory.failNextAllocation = true ∨
      blank? kind slices rows columns channels colorSpace interleaved = none) :
    imageFrom kind slices rows columns channels colorSpace interleaved values s =
      .error (.failure (.allocation .image))
        { s with memory := { s.memory with failNextAllocation := false } } := by
  rw [imageFrom_apply hs]
  apply bind_of_error
  apply Container.own_of_none
  exact Memory.allocate_of_refused (hrefused.imp_right (Option.map_eq_none_iff.mpr ·))

/-- Where the host gives an image, it is filled. -/
theorem imageFrom_of_given (hs : s.host = some .reference)
    (hidle : s.memory.failNextAllocation = false) {blank : ImageObject}
    (hblank : blank? kind slices rows columns channels colorSpace interleaved = some blank)
    (values : List kind.element.Word) :
    ∃ m, m.find? (.ofId s.memory.allocations.size) = some (.image blank) ∧
      imageFrom kind slices rows columns channels colorSpace interleaved values s =
        (⟨⟨.ofId s.memory.allocations.size, .library, .reference⟩⟩ : Buffer kind).fill values
          { s with memory := m } := by
  obtain ⟨m, hgiven, hissued⟩ := Memory.issued_allocate hidle (.image blank)
  refine ⟨m, hissued.find?, ?_⟩
  rw [imageFrom_apply hs, hblank]
  exact bind_of_ok (Container.own_of_some hgiven)

end From

end Buffer

/-! ## Extents of an image -/

namespace ImageExtents

variable {extents : List Int} {slices : Option Int} {rows columns channels : Int}

/-- Three extents are rows, columns and channels; a fourth one before them is the slices. -/
inductive Axes : List Int → Option Int → Int → Int → Int → Prop where
  | flat (rows columns channels : Int) : Axes [rows, columns, channels] none rows columns channels
  | deep (slices rows columns channels : Int) :
    Axes [slices, rows, columns, channels] (some slices) rows columns channels

/-- Extents that a host makes an image of: none is negative, there is a channel, and the values can
be counted, where no slices count as one. -/
def Valid (extents : List Int) : Prop :=
  ∃ slices rows columns channels, Axes extents slices rows columns channels ∧
    (0 ≤ slices.getD 0 ∧ 0 ≤ rows ∧ 0 ≤ columns ∧ 1 ≤ channels) ∧
    (elementCount [max (slices.getD 0) 1, rows, columns, channels]).isSome

/-- There are to be no slices of an image that has pixels. -/
def Slips (extents : List Int) : Prop :=
  ∃ rows columns channels, extents = [0, rows, columns, channels] ∧ rows ≠ 0 ∧ columns ≠ 0

theorem valid_iff (haxes : Axes extents slices rows columns channels)
    (kind : BufferCategory.image.Kind) (colorSpace : ColorSpace) (interleaved : Bool) :
    Valid extents ↔
      ∃ blank, Buffer.blank? kind slices rows columns channels colorSpace interleaved =
        some blank := by
  constructor
  · rintro ⟨slices', rows', columns', channels', haxes', hextents, hcount⟩
    obtain ⟨length, hlength⟩ := Option.isSome_iff_exists.mp hcount
    -- extents are axes in one way only
    cases haxes with
    | flat => cases haxes' with
      | flat => exact ⟨_, ImageObject.zeroed?_eq_some_iff.mpr ⟨hextents, length, hlength, rfl⟩⟩
    | deep => cases haxes' with
      | deep => exact ⟨_, ImageObject.zeroed?_eq_some_iff.mpr ⟨hextents, length, hlength, rfl⟩⟩
  · rintro ⟨blank, hblank⟩
    obtain ⟨hextents, length, hlength, -⟩ := ImageObject.zeroed?_eq_some_iff.mp hblank
    exact ⟨slices, rows, columns, channels, haxes, hextents,
      Option.isSome_iff_exists.mpr ⟨length, hlength⟩⟩

/-- As many values as were counted fill the image of the host, unless there are no slices of an
image that has pixels. -/
theorem length_eq_iff (haxes : Axes extents slices rows columns channels)
    {kind : BufferCategory.image.Kind} {colorSpace : ColorSpace} {interleaved : Bool}
    {blank : ImageObject}
    (hblank : Buffer.blank? kind slices rows columns channels colorSpace interleaved = some blank)
    {count : Nat} (hsized : ∀ n, elementCount extents = some n → n = count) :
    blank.length = count ↔ ¬ Slips extents := by
  obtain ⟨⟨hslices, hrows, hcolumns, hchannels⟩, length, hlength, rfl⟩ :=
    ImageObject.zeroed?_eq_some_iff.mp hblank
  show length = count ↔ _
  cases haxes with
  | flat =>
    have hone : max ((none : Option Int).getD 0) 1 = 1 := by decide
    rw [hone, elementCount_cons_one] at hlength
    refine iff_of_true (hsized length hlength) ?_
    rintro ⟨_, _, _, ⟨⟩, -⟩
  | deep slices =>
    rw [Option.getD_some] at hlength hslices
    rcases Int.lt_or_eq_of_le hslices with hpos | hzero
    · rw [max_eq_left (by omega)] at hlength
      refine iff_of_true (hsized length hlength) ?_
      rintro ⟨_, _, _, hextents, -⟩
      have hnone : slices = 0 := (List.cons_eq_cons.mp hextents).1
      omega
    · -- the library counts nothing, and the host one slice
      subst hzero
      have hnone : elementCount [0, rows, columns, channels] = some 0 := by
        apply elementCount_cons_zero
        simp only [List.mem_cons, List.not_mem_nil, or_false]
        rintro extent (rfl | rfl | rfl)
        · exact hrows
        · exact hcolumns
        · omega
      obtain rfl := hsized 0 hnone
      have hproduct := (elementCount_spec hlength).2
      have hone : max (0 : Int) 1 = 1 := by decide
      simp only [hone, List.prod_cons, List.prod_nil, Int.one_mul, Int.mul_one] at hproduct
      have hempty : length = 0 ↔ rows = 0 ∨ columns = 0 ∨ channels = 0 := by
        rw [← Int.natCast_eq_zero, hproduct, Int.mul_eq_zero, Int.mul_eq_zero]
      rw [hempty]
      constructor
      · rintro hnothing ⟨_, _, _, hextents, hpixels⟩
        simp only [List.cons.injEq, true_and, and_true] at hextents
        omega
      · intro hslips
        by_contra hsome
        exact hslips ⟨rows, columns, channels, rfl, by omega, by omega⟩

end ImageExtents

namespace Buffer

variable {kind : BufferCategory.image.Kind} {s : Session} {extents : List Int}
  {colorSpace : ColorSpace} {interleaved : Bool} {values : List kind.element.Word}

/-! ## Checking the size -/

theorem checkSize_of_sized {c : Category} {count : Nat}
    (hsized : ∀ n, elementCount extents = some n → n = count) :
    checkSize c extents count = .ok () := by
  unfold checkSize
  split
  case h_1 n hn => rw [if_pos (hsized n hn)]
  case h_2 => rfl

theorem imageOf_of_axes {slices : Option Int} {rows columns channels : Int}
    (haxes : ImageExtents.Axes extents slices rows columns channels)
    (hsized : ∀ n, elementCount extents = some n → n = values.length) :
    imageOf kind extents colorSpace interleaved values s =
      imageFrom kind slices rows columns channels colorSpace interleaved values s := by
  unfold imageOf
  rw [checkSize_of_sized hsized, ofExcept_ok, pure_bind]
  cases haxes <;> rfl

/-- Other numbers of extents are refused, whatever the host says. -/
theorem imageOf_of_no_axes
    (haxes : ∀ slices rows columns channels,
      ¬ ImageExtents.Axes extents slices rows columns channels)
    (hsized : ∀ n, elementCount extents = some n → n = values.length) :
    imageOf kind extents colorSpace interleaved values s =
      .error (.failure (.allocation .image)) s := by
  unfold imageOf
  rw [checkSize_of_sized hsized, ofExcept_ok, pure_bind]
  split
  case h_1 => exact (haxes _ _ _ _ (.flat _ _ _)).elim
  case h_2 => exact (haxes _ _ _ _ (.deep _ _ _ _)).elim
  case h_3 => rfl

/-! ## What the image holds -/

/-- The place of a value, by the extents alone. -/
def placeOf (interleaved : Bool) (rows columns channels row column channel : Int) : Int :=
  if interleaved then (row * columns + column) * channels + channel
  else channel * rows * columns + row * columns + column

/-- The library owns the image, which has elements of the kind and shows the extents and the values
that were given.  Slices given as zero are not shown. -/
structure Holds (t : Buffer kind) (m : Memory) (extents : List Int) (interleaved : Bool)
    (values : List kind.element.Word) : Prop where
  owner : t.container.owner = .library
  elementKind : t.container.elementKind? m = some kind
  shown : (∀ rows columns channels, extents ≠ [0, rows, columns, channels]) →
    t.container.extents m = extents
  flat : ∀ rows columns channels, extents = [0, rows, columns, channels] →
    t.container.extents m = [rows, columns, channels]
  data : t.data m = values
  value : ∀ rows columns channels, extents = [rows, columns, channels] →
    ∀ row column channel, 0 ≤ row ∧ row < rows → 0 ≤ column ∧ column < columns →
      0 ≤ channel ∧ channel < channels →
        t.get? row column channel m =
            values[(placeOf interleaved rows columns channels row column channel).toNat]? ∧
          (t.get? row column channel m).isSome

end Buffer

namespace ImageObject

variable {i : ImageObject} {row column channel : Int}

/-- The place of coordinates inside a two-dimensional image. -/
theorem InRange.place_eq (hinside : i.InRange row column channel) (h : i.Shaped)
    (hflat : i.slices = 0) :
    i.place row column channel =
      (Buffer.placeOf i.interleaved i.rows i.columns i.channels row column channel).toNat := by
  have hchannels := h.channels
  obtain ⟨hrow, -, hcolumn, -, hchannel, -⟩ := hinside
  have hrest := Int.mul_nonneg hrow h.columns
  rw [place, h.pixel_eq hrow hcolumn, h.pixels_of_flat hflat, position, Buffer.placeOf]
  split
  · rw [Int.toNat_add (Int.mul_nonneg (Int.add_nonneg hrest hcolumn) (by omega)) hchannel,
      Int.toNat_mul (Int.add_nonneg hrest hcolumn) (by omega), Int.toNat_add hrest hcolumn,
      Int.toNat_mul hrow h.columns]
  · have hplane := Int.mul_nonneg (Int.mul_nonneg hchannel h.rows) h.columns
    rw [Int.toNat_add (Int.add_nonneg hplane hrest) hcolumn, Int.toNat_add hplane hrest,
      Int.toNat_mul hrow h.columns, Int.toNat_mul (Int.mul_nonneg hchannel h.rows) h.columns,
      Int.toNat_mul hchannel h.rows, Nat.mul_assoc, Nat.add_assoc]

end ImageObject

namespace Buffer

variable {kind : BufferCategory.image.Kind} {extents : List Int} {colorSpace : ColorSpace}
  {interleaved : Bool} {values : List kind.element.Word} {slices : Option Int}
  {rows columns channels : Int} {m : Memory} {id : Nat} {blank : ImageObject}

/-- The image of the extents that was asked for, with the values in its storage. -/
structure MadeOf (i : ImageObject) (kind : BufferCategory.image.Kind) (slices : Option Int)
    (rows columns channels : Int) (interleaved : Bool) (values : List kind.element.Word) :
    Prop where
  shaped : i.Shaped
  code : kind.code = i.code
  slices : i.slices = slices.getD 0
  rows : i.rows = rows
  columns : i.columns = columns
  channels : i.channels = channels
  layout : i.interleaved = interleaved
  values : i.storage.elements kind.element.size i.length = values

/-- What the host gave is filled by as many values. -/
theorem madeOf_filled
    (hblank : blank? kind slices rows columns channels colorSpace interleaved = some blank)
    (hlength : blank.length = values.length) :
    MadeOf (blank.filled kind.element values) kind slices rows columns channels interleaved
      values := by
  have hshaped : blank.Shaped := ImageObject.shaped_zeroed? hblank
  obtain ⟨-, length, -, rfl⟩ := ImageObject.zeroed?_eq_some_iff.mp hblank
  refine ⟨hshaped.setStorage (Storage.size_writeFrom ..), rfl, rfl, rfl, rfl, rfl, rfl, ?_⟩
  obtain rfl : length = values.length := hlength
  have hsize : ImageObject.elementSize kind.code = kind.element.size :=
    ImageObject.elementSize_code kind
  exact Storage.elements_writeFrom _ values ((Nat.mul_le_mul_left _ hsize.ge).trans hshaped.room)

namespace MadeOf

variable {i : ImageObject} {t : Buffer kind}

theorem elementKind (h : MadeOf i kind slices rows columns channels interleaved values)
    (hhost : t.container.host = .reference)
    (hfound : m.find? t.container.handle = some (.image i)) :
    t.container.elementKind? m = some kind := by
  have htold : t.container.code m = i.code :=
    (Container.ask_of_live hhost hfound _ _).trans (Memory.askBuffer_of_image hfound ..)
  exact BufferCategory.kindOfCode?_eq_some_iff.mpr (h.code.trans htold.symm)

/-- Slices are shown if there are any. -/
theorem shown (h : MadeOf i kind slices rows columns channels interleaved values)
    (hhost : t.container.host = .reference)
    (hfound : m.find? t.container.handle = some (.image i)) :
    t.container.extents m =
      (if 0 < slices.getD 0 then [slices.getD 0] else []) ++ [rows, columns, channels] := by
  rw [Container.extents_of_image hhost hfound, h.slices, h.rows, h.columns, h.channels]

theorem data (h : MadeOf i kind slices rows columns channels interleaved values)
    (hhost : t.container.host = .reference)
    (hfound : m.find? t.container.handle = some (.image i)) : t.data m = values :=
  (data_of_image hhost hfound).trans h.values

/-- A two-dimensional image is read at the place of the coordinates. -/
theorem value (h : MadeOf i kind none rows columns channels interleaved values)
    (hhost : t.container.host = .reference)
    (hfound : m.find? t.container.handle = some (.image i)) {row column channel : Int}
    (hrow : 0 ≤ row ∧ row < rows) (hcolumn : 0 ≤ column ∧ column < columns)
    (hchannel : 0 ≤ channel ∧ channel < channels) :
    t.get? row column channel m =
        values[(placeOf interleaved rows columns channels row column channel).toNat]? ∧
      (t.get? row column channel m).isSome := by
  have hinside : i.InRange row column channel := by
    rw [ImageObject.InRange, h.rows, h.columns, h.channels]
    exact ⟨hrow.1, hrow.2, hcolumn.1, hcolumn.2, hchannel⟩
  have hread := get?_of_image hhost hfound h.shaped h.slices row column channel
  rw [if_pos hinside] at hread
  have hplace := hinside.place_eq h.shaped h.slices
  rw [h.rows, h.columns, h.channels, h.layout] at hplace
  refine ⟨?_, by rw [hread]; rfl⟩
  -- the values are the elements of the storage, in its order
  rw [hread, ← hplace, ← h.values, Storage.getElem?_elements,
    if_pos (hinside.place_lt h.shaped h.slices)]
  rfl

/-- Such an image holds what was asked for. -/
theorem holds (h : MadeOf i kind slices rows columns channels interleaved values)
    (haxes : ImageExtents.Axes extents slices rows columns channels)
    (howner : t.container.owner = .library) (hhost : t.container.host = .reference)
    (hfound : m.find? t.container.handle = some (.image i)) :
    t.Holds m extents interleaved values where
  owner := howner
  elementKind := h.elementKind hhost hfound
  data := h.data hhost hfound
  shown hsliced := by
    rw [h.shown hhost hfound]
    cases haxes with
    | flat => rfl
    | deep slices =>
      have hne : slices ≠ 0 := by
        rintro rfl
        exact hsliced _ _ _ rfl
      have hnonneg := h.shaped.slices
      rw [h.slices, Option.getD_some] at hnonneg
      rw [Option.getD_some, if_pos (by omega)]
      rfl
  flat := by
    rintro rows' columns' channels' rfl
    cases haxes
    exact h.shown hhost hfound
  value := by
    rintro rows' columns' channels' rfl row column channel hrow hcolumn hchannel
    cases haxes
    exact h.value hhost hfound hrow hcolumn hchannel

end MadeOf

/-! ## Making an image -/

/-- **Making an image of values ends in one of four ways.**  Where the extents have a count that is
not the number of values, it fails with both.  Otherwise it fails where the host does not make an
image of the extents, or refuses this one, and nothing has been issued.  Otherwise the library owns
an image of the kind that shows the extents and the values as they were given, each value of a
two-dimensional one at the place of its coordinates.  There is one exception: where the slices are
given as zero and there are rows and columns, filling the image is a mistake. -/
theorem imageOf_ends {s : Session} (hs : s.host = some .reference)
    (kind : BufferCategory.image.Kind) (extents : List Int) (colorSpace : ColorSpace)
    (interleaved : Bool) (values : List kind.element.Word) :
    (∀ n, elementCount extents = some n → n ≠ values.length →
      imageOf kind extents colorSpace interleaved values s =
        .error (.failure (.size .image n values.length)) s) ∧
    ((∀ n, elementCount extents = some n → n = values.length) →
      (¬ ImageExtents.Valid extents ∨ s.memory.failNextAllocation = true →
        ∃ m, imageOf kind extents colorSpace interleaved values s =
            .error (.failure (.allocation .image)) { s with memory := m } ∧
          m.allocations = s.memory.allocations) ∧
      (ImageExtents.Valid extents → s.memory.failNextAllocation = false →
        (¬ ImageExtents.Slips extents →
          ∃ t s', imageOf kind extents colorSpace interleaved values s = .ok t s' ∧
            t.Holds s'.memory extents interleaved values) ∧
        (ImageExtents.Slips extents →
          ∃ s', imageOf kind extents colorSpace interleaved values s = .error .panic s'))) := by
  refine ⟨fun n hcount hne => ?_, fun hsized => ⟨fun hrefused => ?_, fun hvalid hidle => ?_⟩⟩
  · -- the values are counted before the host is asked
    unfold imageOf checkSize
    rw [hcount]
    simp only [if_neg hne]
    rfl
  · by_cases haxes : ∃ slices rows columns channels,
        ImageExtents.Axes extents slices rows columns channels
    · obtain ⟨slices, rows, columns, channels, haxes⟩ := haxes
      rw [imageOf_of_axes haxes hsized]
      refine ⟨_, imageFrom_of_refused hs ?_, rfl⟩
      refine hrefused.symm.imp_right fun hinvalid => ?_
      rw [ImageExtents.valid_iff haxes kind colorSpace interleaved, ← Option.isSome_iff_exists,
        Option.not_isSome_iff_eq_none] at hinvalid
      exact hinvalid
    · simp only [not_exists] at haxes
      exact ⟨s.memory, imageOf_of_no_axes haxes hsized, rfl⟩
  · obtain ⟨slices, rows, columns, channels, haxes, -⟩ := id hvalid
    obtain ⟨blank, hblank⟩ :=
      (ImageExtents.valid_iff haxes kind colorSpace interleaved).mp hvalid
    obtain ⟨m, hfound, hmade⟩ := imageFrom_of_given hs hidle hblank values
    rw [imageOf_of_axes haxes hsized, hmade]
    -- from here on it depends on the two counts alone
    have hlength := ImageExtents.length_eq_iff haxes hblank hsized
    constructor
    · intro hfits
      obtain ⟨m', hfilled, hholds⟩ := fill_of_image (s := { s with memory := m })
        (t := (⟨⟨.ofId s.memory.allocations.size, .library, .reference⟩⟩ : Buffer kind)) rfl hfound
        (hlength.mpr hfits)
      exact ⟨_, _, hfilled,
        (madeOf_filled hblank (hlength.mpr hfits)).holds haxes rfl rfl hholds⟩
    · intro hslips
      refine fill_panics (s := { s with memory := m }) rfl hfound rfl rfl fun hsame => ?_
      rw [Container.length_of_image (m := m) rfl hfound] at hsame
      exact hlength.mp hsame hslips

def hosted : Session where
  host := some .reference

/-- Two pixels of two planes are read plane by plane.  No values for no slices of a pixel are a
mistake. -/
theorem imageOf_of_planes :
    hosted.host = some .reference ∧
      (∃ t s', imageOf PixelKind.byte [1, 2, 2] .gray false [0, 51, 255, 102] hosted = .ok t s' ∧
        t.container.extents s'.memory = [1, 2, 2] ∧
        t.data s'.memory = [0, 51, 255, 102] ∧ t.get? 0 1 0 s'.memory = some 51) ∧
      ∃ s', imageOf PixelKind.byte [0, 1, 1, 1] .gray true [] hosted = .error .panic s' := by
  refine ⟨rfl, ?_, ?_⟩
  · have hsized : ∀ n, elementCount [1, 2, 2] = some n → n = 4 := by decide
    have hvalid : ImageExtents.Valid [1, 2, 2] :=
      ⟨none, 1, 2, 2, .flat 1 2 2, by decide, by decide⟩
    obtain ⟨t, s', hmade, hholds⟩ :=
      (((imageOf_ends (s := hosted) rfl .byte [1, 2, 2] .gray false [0, 51, 255, 102]).2
        hsized).2 hvalid rfl).1 (by rintro ⟨_, _, _, ⟨⟩, -⟩)
    refine ⟨t, s', hmade, hholds.shown (by rintro _ _ _ ⟨⟩), hholds.data, ?_⟩
    exact (hholds.value 1 2 2 rfl 0 1 0 (by decide) (by decide) (by decide)).1
  · have hsized : ∀ n, elementCount [0, 1, 1, 1] = some n → n = 0 := by decide
    have hvalid : ImageExtents.Valid [0, 1, 1, 1] :=
      ⟨some 0, 1, 1, 1, .deep 0 1 1 1, by decide, by decide⟩
    exact (((imageOf_ends (s := hosted) rfl .byte [0, 1, 1, 1] .gray true []).2 hsized).2
      hvalid rfl).2 ⟨1, 1, 1, rfl, by decide, by decide⟩

end Buffer

end Custody
