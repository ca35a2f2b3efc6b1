import Custody.Conversion.Numeric

/-!
# Converting images

A channel value is rescaled from the range of its kind to the range of the target kind; integer
kinds round to the nearest value of their range.  The coordinates of a value do not change, but its
place in the storage does where the layout changes.
-/

namespace Custody

open Number

/-! ## One channel value -/

/-- The value that stands for full intensity. -/
def PixelKind.full : PixelKind → Double
  | bit => Binary.ofInt 1
  | byte => Binary.ofInt 0xFF
  | bit16 => Binary.ofInt 0xFFFF
  | real32 | real64 => Binary.ofInt 1

/-- The value as the kind can hold it: rounded into the range of an integer kind. -/
def PixelKind.settle (kind : PixelKind) (x : Double) : Double :=
  match kind with
  | real32 | real64 => x
  | bit | byte | bit16 => (Binary.round x).clamp (Binary.ofInt 0) kind.full

def convertPixel (source target : PixelKind) (w : source.element.Word) : target.element.Word :=
  let intensity := Binary.div (f := .double) (source.element.toComplex w).re source.full
  let scaled := Binary.mul intensity target.full
  target.element.ofComplex ⟨target.settle scaled, Binary.pack false 0⟩

/-! ## A whole image -/

/-- Every pair of a pixel and a channel. -/
def coordinates (pixels channels : Nat) : List (Nat × Nat) :=
  (List.range pixels).flatMap fun pixel => (List.range channels).map fun channel => (pixel, channel)

/-- The image with every channel value converted, in the wanted layout; the source kind has to be
known. -/
def ImageObject.convert? (i : ImageObject) (target : PixelKind) (interleaved : Bool) :
    Option ImageObject :=
  (PixelKind.ofCode? i.code).map fun source =>
    let channels := i.channels.toNat
    -- read in the layout of the source, written in the one that is wanted
    let move (storage : Storage) (place : Nat × Nat) : Storage :=
      let value := i.storage.read source.element.size
        (position i.interleaved i.pixels channels place.1 place.2)
      storage.write target.element.size (position interleaved i.pixels channels place.1 place.2)
        (convertPixel source target value)
    { i with
      code := target.code
      interleaved
      storage := (coordinates i.pixels channels).foldl move
        (.allocate i.length target.element.size) }

end Custody
