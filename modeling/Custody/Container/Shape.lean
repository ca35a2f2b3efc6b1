import Custody.Container.Basic

/-!
# Questions about buffers

What a buffer says about its extents and its elements.  Every question is put to the host of the
container; an empty container has rank 0, no extents, no elements and the code 0.

An image has the extents rows, columns and channels, and slices before them if it has slices.
-/

namespace Custody

namespace Container

/-! ## Any buffer -/

section Buffer

variable {b : BufferCategory}

/-- The number of axes, for images with that of the channels.  It is a 64-bit integer, so the axis of
the channels takes the greatest rank that a host can tell to the least integer. -/
def rank (k : Container (.buffer b)) (m : Memory) : Int :=
  k.ask 0 fun host h =>
    match b with
    | .array _ => host.rank b h m
    | .image => (Int64.ofInt (host.rank b h m) + 1).toInt

def length (k : Container (.buffer b)) (m : Memory) : Int :=
  k.ask 0 fun host h => host.length b h m

def code (k : Container (.buffer b)) (m : Memory) : Int :=
  k.ask 0 fun host h => host.elementCode b h m

/-- The element kind, if the library knows its code. -/
def elementKind? (k : Container (.buffer b)) (m : Memory) : Option b.Kind :=
  b.kindOfCode? (k.code m)

/-- The elements, if the host shows them. -/
def storage? (k : Container (.buffer b)) (m : Memory) : Option Storage :=
  k.ask none fun host h => host.storage b h m

end Buffer

/-! ## Images -/

section Image

variable (k : Container .image) (m : Memory)

def rows : Int := k.ask 0 fun host h => host.rows h m

def columns : Int := k.ask 0 fun host h => host.columns h m

/-- The number of slices, 0 for a two-dimensional image. -/
def slices : Int := k.ask 0 fun host h => host.slices h m

def channels : Int := k.ask 0 fun host h => host.channels h m

/-- The color space; one that the library does not know is undefined. -/
def colorSpace : ColorSpace :=
  (ColorSpace.ofCode? (k.ask ColorSpace.undefined.code fun host h => host.colorSpace h m)).getD
    .undefined

/-- Whether there is a channel that carries no color. -/
def hasAlpha : Bool := k.ask false fun host h => host.hasAlpha h m

/-- Whether the channels of a pixel lie together. -/
def isInterleaved : Bool := k.ask false fun host h => host.isInterleaved h m

def hasSlices : Bool := decide (0 < k.slices m)

end Image

/-! ## Extents -/

/-- The extent of each axis. -/
def extents : {b : BufferCategory} → Container (.buffer b) → Memory → List Int
  | .array c, k, m =>
    match k.ask none fun host h => host.extents c h m with
    | some extents => extents.take (k.rank m).toNat
    | none => []
  | .image, k, m =>
    if k.isEmpty then []
    else
      (if k.hasSlices m then [k.slices m] else []) ++ [k.rows m, k.columns m, k.channels m]

end Container

end Custody
