import Custody.Container.Create

/-!
# Buffers of a known element kind

The code of a container is checked once; from then on its elements are read and written at the
machine type of their kind.

A buffer is dropped, copied and passed on as the container that it holds.
-/

namespace Custody

open SessionM Text

/-- A container whose elements are of a known kind. -/
structure Buffer {b : BufferCategory} (kind : b.Kind) where
  container : Container (.buffer b)

namespace Container

variable {b : BufferCategory}

/-! ## Checking the kind -/

/-- The container as a buffer, if it is not empty and says that its elements are of the kind. -/
def asBuffer (k : Container (.buffer b)) (kind : b.Kind) (m : Memory) :
    Except Failure (Buffer kind) := do
  let _ ← k.require
  match k.elementKind? m with
  | some actual =>
    if actual = kind then .ok ⟨k⟩
    else .error (.elementMismatch (.buffer b) kind.label actual.label)
  | none => .error (.unknownElement (.buffer b) (k.code m))

/-- Turn a container into a buffer; where that fails, the container is dropped. -/
def intoBuffer (k : Container (.buffer b)) (kind : b.Kind) : SessionM (Buffer kind) := do
  match k.asBuffer kind (← memory) with
  | .ok buffer => return buffer
  | .error cause =>
    k.drop
    fail cause

end Container

namespace Buffer

variable {b : BufferCategory} {kind : b.Kind}

/-! ## Elements -/

/-- The number of elements that can be seen; none if the host does not show them. -/
def size (t : Buffer kind) (m : Memory) : Nat :=
  match t.container.storage? m with
  | some _ => (t.container.length m).toNat
  | none => 0

def data (t : Buffer kind) (m : Memory) : List kind.element.Word :=
  match t.container.storage? m with
  | some storage => storage.elements kind.element.size (t.container.length m).toNat
  | none => []

/-- The memory with elements overwritten from an index on. -/
def writeIn (t : Buffer kind) (index : Nat) (values : List kind.element.Word) (m : Memory) :
    Memory :=
  match t.container.storage? m with
  | some storage =>
    t.container.host.setStorage b t.container.handle
      (storage.writeFrom kind.element.size index values) m
  | none => m

/-- Overwrite the element at an index; whether there is one. -/
def set (t : Buffer kind) (index : Nat) (value : kind.element.Word) : SessionM Bool := do
  if index < t.size (← memory) then
    change (t.writeIn index [value])
    return true
  else return false

/-- Overwrite every element by what `f` makes of all of them. -/
def modify (t : Buffer kind) (f : List kind.element.Word → List kind.element.Word) :
    SessionM Unit :=
  change fun m => t.writeIn 0 (f (t.data m)) m

/-- Overwrite all elements by as many values.  Another number of values is a mistake; the buffer
is then dropped. -/
def fill (t : Buffer kind) (values : List kind.element.Word) : SessionM (Buffer kind) := do
  if t.size (← memory) = values.length then
    change (t.writeIn 0 values)
    return t
  else
    t.container.drop
    throw .panic

/-! ## New buffers -/

/-- Refuse values that do not fill the extents.  Extents without a count are left to the host. -/
def checkSize (c : Category) (extents : List Int) (actual : Nat) : Except Failure Unit :=
  match elementCount extents with
  | some expected => if expected = actual then .ok () else .error (.size c expected actual)
  | none => .ok ()

end Buffer

namespace Buffer

def newArray {c : ArrayCategory} (kind : (BufferCategory.array c).Kind) (extents : List Int) :
    SessionM (Buffer kind) := do
  return ⟨← Container.newArray c kind extents⟩

def arrayOf {c : ArrayCategory} (kind : (BufferCategory.array c).Kind) (extents : List Int)
    (values : List kind.element.Word) : SessionM (Buffer kind) := do
  ofExcept (checkSize (.buffer (.array c)) extents values.length)
  (← newArray kind extents).fill values

def newImage (kind : BufferCategory.image.Kind) (slices : Option Int)
    (width height channels : Int) (colorSpace : ColorSpace) (interleaved : Bool) :
    SessionM (Buffer kind) := do
  return ⟨← Container.newImage
    ⟨slices, width, height, channels, kind.code, colorSpace.code, interleaved⟩⟩

/-- An image of these values, in the order of the storage.  Its extents are rows, columns and
channels, or slices and these. -/
def imageOf (kind : BufferCategory.image.Kind) (extents : List Int) (colorSpace : ColorSpace)
    (interleaved : Bool) (values : List kind.element.Word) : SessionM (Buffer kind) := do
  ofExcept (checkSize .image extents values.length)
  match extents with
  | [rows, columns, channels] =>
    (← newImage kind none columns rows channels colorSpace interleaved).fill values
  | [slices, rows, columns, channels] =>
    (← newImage kind (some slices) columns rows channels colorSpace interleaved).fill values
  | _ => fail (.allocation .image)

/-! ## Copies -/

/-- A deep copy that the library owns. -/
def tryClone {b : BufferCategory} {kind : b.Kind} (t : Buffer kind) : SessionM (Buffer kind) := do
  return ⟨← t.container.tryClone⟩

def convertArray {kind : BufferCategory.numeric.Kind} (t : Buffer kind)
    (target : BufferCategory.numeric.Kind) (method : ConvertMethod) (tolerance : Number.Double) :
    SessionM (Buffer target) := do
  return ⟨← t.container.convertArray target method tolerance⟩

def convertImage {kind : BufferCategory.image.Kind} (t : Buffer kind)
    (target : BufferCategory.image.Kind) (interleaved : Bool) : SessionM (Buffer target) := do
  return ⟨← t.container.convertImage target interleaved⟩

/-! ## Channel values of an image -/

/-- A channel value of a two-dimensional image, if the coordinates lie in it. -/
def get? {kind : BufferCategory.image.Kind} (t : Buffer kind) (row column channel : Int)
    (m : Memory) : Option kind.element.Word :=
  let k := t.container
  let rows := k.rows m
  let columns := k.columns m
  let channels := k.channels m
  if k.hasSlices m then none
  else if 0 ≤ row ∧ row < rows ∧ 0 ≤ column ∧ column < columns
      ∧ 0 ≤ channel ∧ channel < channels then
    (t.data m)[position (k.isInterleaved m) (rows * columns).toNat channels.toNat
      (row * columns + column).toNat channel.toNat]?
  else none

/-! ## Showing -/

def text {b : BufferCategory} {kind : b.Kind} (t : Buffer kind) : String :=
  record (Category.buffer b).name [("kind", kind.name), ("inner", t.container.text)]

end Buffer

end Custody
