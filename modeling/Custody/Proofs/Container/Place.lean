import Custody.Proofs.Container.Shape
import Custody.Proofs.Memory.Storage
import Mathlib.Data.Set.Function

/-!
# Places in an image

A channel value has coordinates, a pixel and a channel, and from these a place in the storage.  In
either layout the places of an image are all the places of its storage, each taken once
(`bijOn_position`).

A two-dimensional image is also read by row, column and channel.  Reading finds the place by itself:
it gives the value there exactly if the coordinates lie inside the image, and no two of them share a
place.

- `bijOn_position`: places and coordinates.
- `ImageObject.Shaped.injOn_place`: rows, columns and channels have places of their own.
- `Buffer.get?_of_image`: what reading gives.
-/

namespace Custody

/-! ## Places -/

/-- The pairs of a row and a column. -/
def grid (rows columns : Nat) : Set (Nat × Nat) := {p | p.1 < rows ∧ p.2 < columns}

/-- The pairs are laid out row by row. -/
theorem bijOn_rowMajor (rows columns : Nat) :
    Set.BijOn (fun p : Nat × Nat => p.1 * columns + p.2) (grid rows columns)
      (Set.Iio (rows * columns)) := by
  have hinverse : Set.InvOn (fun index => (index / columns, index % columns))
      (fun p : Nat × Nat => p.1 * columns + p.2) (grid rows columns)
      (Set.Iio (rows * columns)) := by
    constructor
    · rintro ⟨row, column⟩ ⟨-, hcolumn : column < columns⟩
      have hdiv : (row * columns + column) / columns = row := by
        rw [Nat.add_comm, Nat.add_mul_div_right _ _ (by omega), Nat.div_eq_of_lt hcolumn,
          Nat.zero_add]
      exact Prod.ext hdiv (Nat.mul_add_mod_of_lt hcolumn)
    · intro index _
      exact Nat.div_add_mod' index columns
  refine hinverse.bijOn ?_ ?_
  · rintro ⟨row, column⟩ ⟨hrow : row < rows, hcolumn : column < columns⟩
    calc row * columns + column < row * columns + columns := Nat.add_lt_add_left hcolumn _
      _ = (row + 1) * columns := (Nat.succ_mul row columns).symm
      _ ≤ rows * columns := Nat.mul_le_mul_right columns hrow
  · intro index (hindex : index < rows * columns)
    have hpos : 0 < columns := by
      rcases Nat.eq_zero_or_pos columns with rfl | hpos
      · simp at hindex
      · exact hpos
    exact ⟨Nat.div_lt_of_lt_mul (by rwa [Nat.mul_comm]), Nat.mod_lt _ hpos⟩

/-- In each layout, every place of the storage is the place of just one channel of one pixel. -/
theorem bijOn_position (interleaved : Bool) (pixels channels : Nat) :
    Set.BijOn (fun p : Nat × Nat => position interleaved pixels channels p.1 p.2)
      (grid pixels channels) (Set.Iio (pixels * channels)) := by
  cases interleaved with
  | true => exact bijOn_rowMajor pixels channels
  | false =>
    -- planes of pixels are the rows of the other layout, with the coordinates swapped
    have hswap : Set.BijOn Prod.swap (grid pixels channels) (grid channels pixels) := by
      refine ⟨fun p hp => ⟨hp.2, hp.1⟩, Prod.swap_injective.injOn, fun p hp => ?_⟩
      exact ⟨p.swap, ⟨hp.2, hp.1⟩, p.swap_swap⟩
    rw [Nat.mul_comm pixels channels]
    exact (bijOn_rowMajor channels pixels).comp hswap

theorem position_lt {interleaved : Bool} {pixels channels pixel channel : Nat}
    (hpixel : pixel < pixels) (hchannel : channel < channels) :
    position interleaved pixels channels pixel channel < pixels * channels :=
  (bijOn_position interleaved pixels channels).mapsTo
    (show (pixel, channel) ∈ grid pixels channels from ⟨hpixel, hchannel⟩)

/-! ## Channel values -/

namespace ImageObject

variable {i : ImageObject}

/-- The value of a channel of a pixel. -/
def channelValue (i : ImageObject) (t : ElementType) (pixel channel : Nat) : t.Word :=
  i.storage.read t.size (position i.interleaved i.pixels i.channels.toNat pixel channel)

/-- A shaped image has a value for each channel of each pixel. -/
theorem Shaped.pixels_mul (h : i.Shaped) : i.pixels * i.channels.toNat = i.length := by
  have hslices := h.slices
  have hnonneg : 0 ≤ max i.slices 1 * i.rows * i.columns :=
    Int.mul_nonneg (Int.mul_nonneg (by omega) h.rows) h.columns
  have hchannels := h.channels
  apply Int.ofNat.inj
  simp only [Int.ofNat_eq_natCast]
  rw [Int.natCast_mul, pixels, Int.toNat_of_nonneg hnonneg, Int.toNat_of_nonneg (by omega),
    h.length]

/-! ## Rows and columns -/

/-- The coordinates lie inside a two-dimensional image. -/
def InRange (i : ImageObject) (row column channel : Int) : Prop :=
  0 ≤ row ∧ row < i.rows ∧ 0 ≤ column ∧ column < i.columns ∧ 0 ≤ channel ∧ channel < i.channels

instance (i : ImageObject) (row column channel : Int) : Decidable (i.InRange row column channel) :=
  inferInstanceAs (Decidable (_ ∧ _))

/-- The pixel in a row and a column. -/
def pixel (i : ImageObject) (row column : Int) : Nat := (row * i.columns + column).toNat

/-- The place of a channel of the pixel in a row and a column. -/
def place (i : ImageObject) (row column channel : Int) : Nat :=
  position i.interleaved i.pixels i.channels.toNat (i.pixel row column) channel.toNat

section Flat

variable {row column channel row' column' channel' : Int}

theorem Shaped.pixels_of_flat (h : i.Shaped) (hflat : i.slices = 0) :
    i.pixels = i.rows.toNat * i.columns.toNat := by
  have hone : max (0 : Int) 1 = 1 := by decide
  rw [pixels, hflat, hone, Int.one_mul, Int.toNat_mul h.rows h.columns]

theorem Shaped.pixel_eq (h : i.Shaped) (hrow : 0 ≤ row) (hcolumn : 0 ≤ column) :
    i.pixel row column = row.toNat * i.columns.toNat + column.toNat := by
  rw [pixel, Int.toNat_add (Int.mul_nonneg hrow h.columns) hcolumn, Int.toNat_mul hrow h.columns]

namespace InRange

/-- Row and column are inside also as natural numbers. -/
theorem mem_rowMajor (hinside : i.InRange row column channel) :
    (row.toNat, column.toNat) ∈ grid i.rows.toNat i.columns.toNat := by
  obtain ⟨hrow, hrows, hcolumn, hcolumns, -⟩ := hinside
  constructor <;> simp only <;> omega

theorem pixel_lt (hinside : i.InRange row column channel) (h : i.Shaped) (hflat : i.slices = 0) :
    i.pixel row column < i.pixels := by
  rw [h.pixel_eq hinside.1 hinside.2.2.1, h.pixels_of_flat hflat]
  exact (bijOn_rowMajor _ _).mapsTo hinside.mem_rowMajor

theorem channel_lt (hinside : i.InRange row column channel) :
    channel.toNat < i.channels.toNat := by
  obtain ⟨-, -, -, -, hchannel, hchannels⟩ := hinside
  omega

theorem place_lt (hinside : i.InRange row column channel) (h : i.Shaped) (hflat : i.slices = 0) :
    i.place row column channel < i.length :=
  h.pixels_mul ▸ position_lt (hinside.pixel_lt h hflat) hinside.channel_lt

end InRange

end Flat

end ImageObject

/-! ## Reading -/

/-- The elements of an image are shown in the order of the storage. -/
theorem Buffer.data_of_image {kind : BufferCategory.image.Kind} {t : Buffer kind} {m : Memory}
    {i : ImageObject} (hhost : t.container.host = .reference)
    (hfound : m.find? t.container.handle = some (.image i)) :
    t.data m = i.storage.elements kind.element.size i.length := by
  have hstorage : t.container.storage? m = some i.storage :=
    Container.storage?_of_live hhost hfound rfl
  rw [Buffer.data, hstorage, Container.length_of_image hhost hfound]
  rfl

/-- A value of a two-dimensional image is read at its place. -/
theorem Buffer.get?_of_image {kind : BufferCategory.image.Kind} {t : Buffer kind} {m : Memory}
    {i : ImageObject} (hhost : t.container.host = .reference)
    (hfound : m.find? t.container.handle = some (.image i)) (hshaped : i.Shaped)
    (hflat : i.slices = 0) (row column channel : Int) :
    t.get? row column channel m =
      if i.InRange row column channel then
        some (i.channelValue kind.element (i.pixel row column) channel.toNat)
      else none := by
  have hpixels : i.pixels = (i.rows * i.columns).toNat := by
    rw [hshaped.pixels_of_flat hflat, Int.toNat_mul hshaped.rows hshaped.columns]
  unfold Buffer.get? Container.hasSlices
  simp only [Container.rows_of_image hhost hfound, Container.columns_of_image hhost hfound,
    Container.channels_of_image hhost hfound, Container.slices_of_image hhost hfound,
    Container.isInterleaved_of_image hhost hfound, data_of_image hhost hfound, hflat, ← hpixels]
  rw [if_neg (by decide)]
  -- reading checks the coordinates, and what is left of them is a place of the storage
  split
  case isTrue hinside =>
    have hinside : i.InRange row column channel := hinside
    rw [if_pos hinside]
    exact (Storage.getElem?_elements ..).trans (if_pos (hinside.place_lt hshaped hflat))
  case isFalse houtside => exact (if_neg houtside).symm

end Custody
