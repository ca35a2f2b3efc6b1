import Custody.Tag.Value
import Custody.Memory.Storage

/-!
# Objects of the host

Arrays (tensors and numeric arrays), images and lists, as the host keeps them.  An array has
extents, one per axis, and as many elements as their product says; an image has one value per
channel of each of its pixels; a list has nodes, which are kept apart from it.
-/

namespace Custody

/-! ## Counting elements -/

/-- Multiply one extent into a count.  Extents are not negative, and counts fit in 64 bits. -/
def extend (count : Nat) (extent : Int) : Option Nat :=
  if extent < 0 then none
  else if count * extent.toNat < 0x10000000000000000 then some (count * extent.toNat)
  else none

/-- The number of elements of these extents.  The extents are multiplied from the first on, and a
product that does not fit ends the count, even if a later extent is 0. -/
def elementCount (extents : List Int) : Option Nat := extents.foldlM extend 1

/-! ## Layouts of images -/

/-- The place of a channel of a pixel: channels of a pixel together, or one plane per channel. -/
def position (interleaved : Bool) (pixels channels pixel channel : Nat) : Nat :=
  if interleaved then pixel * channels + channel else channel * pixels + pixel

/-! ## The objects -/

/-- A tensor or a numeric array. -/
structure ArrayObject where
  category : ArrayCategory
  /-- The code of the element kind; it may be unknown. -/
  code : Int
  extents : List Int
  length : Nat
  storage : Storage
  deriving DecidableEq

/-- An image, two-dimensional exactly when it has no slices. -/
structure ImageObject where
  /-- The code of the channel values; it may be unknown. -/
  code : Int
  slices : Int
  rows : Int
  columns : Int
  channels : Int
  colorSpace : Int
  /-- Whether the channels of a pixel lie together, or each channel is a plane of its own. -/
  interleaved : Bool
  length : Nat
  storage : Storage
  deriving DecidableEq

/-- A list; its nodes are given by their numbers, in order. -/
structure ListObject where
  nodes : List Nat
  deriving DecidableEq

inductive Object where
  | array (a : ArrayObject)
  | image (i : ImageObject)
  | list (l : ListObject)
  deriving DecidableEq

namespace Object

def category : Object → Category
  | array a => .buffer (.array a.category)
  | image _ => .image
  | list _ => .list

def storage? : Object → Option Storage
  | array a => some a.storage
  | image i => some i.storage
  | list _ => none

/-- Replace the storage of a buffer. -/
def setStorage (storage : Storage) : Object → Object
  | array a => .array { a with storage }
  | image i => .image { i with storage }
  | list l => .list l

end Object

/-! ## New objects -/

namespace ArrayObject

/-- The size of the elements of a code, where the code is known. -/
def elementSize? (category : ArrayCategory) (code : Int) : Option Nat :=
  (BufferCategory.kindOfCode? (.array category) code).map (·.element.size)

/-- A zeroed array with elements of `size` bytes, whatever its code says. -/
def sized? (category : ArrayCategory) (code : Int) (extents : List Int) (size : Nat) :
    Option ArrayObject :=
  (elementCount extents).map fun length =>
    { category, code, extents, length, storage := .allocate length size }

/-- A zeroed array of a known element kind. -/
def zeroed? (category : ArrayCategory) (code : Int) (extents : List Int) : Option ArrayObject :=
  (elementSize? category code).bind (sized? category code extents)

end ArrayObject

namespace ImageObject

/-- The size of the channel values of a code; unknown values get eight bytes. -/
def elementSize (code : Int) : Nat :=
  match PixelKind.ofCode? code with
  | some kind => kind.element.size
  | none => 8

/-- A zeroed image.  No extent is negative, and there is at least one channel. -/
def zeroed? (code slices rows columns channels colorSpace : Int) (interleaved : Bool) :
    Option ImageObject :=
  if slices < 0 ∨ rows < 0 ∨ columns < 0 ∨ channels < 1 then none
  else
    (elementCount [max slices 1, rows, columns, channels]).map fun length =>
      { code, slices, rows, columns, channels, colorSpace, interleaved, length
        storage := .allocate length (elementSize code) }

def pixels (i : ImageObject) : Nat := (max i.slices 1 * i.rows * i.columns).toNat

/-- Whether one channel more than the color space needs is present. -/
def hasAlpha (i : ImageObject) : Bool :=
  match (ColorSpace.ofCode? i.colorSpace).bind ColorSpace.colorChannels? with
  | some colors => colors + 1 == i.channels
  | none => false

end ImageObject

end Custody
