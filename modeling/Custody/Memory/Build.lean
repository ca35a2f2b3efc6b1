import Custody.Memory.Basic

/-!
# Objects that the host makes by itself

A host also makes objects to pass them into the library.  It is not held to the element codes that
the library knows, such objects are not counted, and armed failures do not concern them.

A host that asks for something impossible makes a mistake of its own.  An object that was issued
before the mistake was noticed stays issued.
-/

namespace Custody

open Text

namespace Memory

/-- Issue an array with elements of `width` bytes, the first ones given.  The extents have to have a
count, and there may be no more values than elements. -/
def buildArray (m : Memory) (category : ArrayCategory) (code : Int) (extents : List Int)
    (width : Nat) (values : List (BitVec (8 * width))) : Option Handle × Memory :=
  match ArrayObject.sized? category code extents width with
  | none => (none, m)
  | some a =>
    -- issued before the values are looked at
    let (id, m) := m.issue (.array a)
    if values.length ≤ a.length then
      (some (.ofId id), m.setStorage (.ofId id) (a.storage.writeFrom width 0 values))
    else (none, m)

/-- Issue an interleaved image without a color space. -/
def buildBlankImage (m : Memory) (code slices width height channels : Int) :
    Option Handle × Memory :=
  match ImageObject.zeroed? code slices height width channels ColorSpace.undefined.code true with
  | none => (none, m)
  | some image =>
    let (id, m) := m.issue (.image image)
    (some (.ofId id), m)

/-- Issue an image of a known kind, the first channel values given in the order of the storage. -/
def buildImage (m : Memory) (kind : PixelKind) (slices width height channels : Int)
    (colorSpace : ColorSpace) (interleaved : Bool) (values : List kind.element.Word) :
    Option Handle × Memory :=
  match m.buildBlankImage kind.code slices width height channels with
  | (none, m) => (none, m)
  | (some h, m) =>
    match m.image? h with
    | none => (none, m)
    | some image =>
      if values.length ≤ image.length then
        let filled : ImageObject :=
          { image with
            colorSpace := colorSpace.code
            interleaved
            storage := image.storage.writeFrom kind.element.size 0 values }
        (some h, (h.id?.map fun id => m.modifyObject id fun _ => .image filled).getD m)
      else (none, m)

def buildList (m : Memory) : Handle × Memory :=
  let (id, m) := m.issue (.list ⟨[]⟩)
  (.ofId id, m)

/-- Append a node to a list; whether the list accepted it. -/
def buildNode (m : Memory) (list : Handle) (name : Option String) (kind : ArgumentKind)
    (value : Payload) : Bool × Memory :=
  match list.id?, name.mapM encode with
  | some id, .ok name => m.addNode id name kind.code value
  | _, _ => (false, m)

/-! ## Looking at elements -/

/-- The first elements of a storage, as many as asked for or as it has room for. -/
def shown (storage : Storage) (width length : Nat) : List (BitVec (8 * width)) :=
  storage.elements width (min length (storage.capacity width))

/-- The elements of a live array, read at any size. -/
def readArray (m : Memory) (h : Handle) (width : Nat) : List (BitVec (8 * width)) :=
  match m.array? h with
  | some a => shown a.storage width a.length
  | none => []

/-- The channel values of a live image, read at any size. -/
def readImage (m : Memory) (h : Handle) (width : Nat) : List (BitVec (8 * width)) :=
  match m.image? h with
  | some i => shown i.storage width i.length
  | none => []

end Memory

end Custody
