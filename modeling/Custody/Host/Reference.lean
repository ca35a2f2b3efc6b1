import Custody.Host.Table
import Custody.Memory.Release
import Custody.Memory.Copy
import Custody.Conversion.Pixel

/-!
# The reference host

The table of the host whose memory is `Memory`.  New objects, copies and conversions are counted
when they succeed.  An armed failure refuses the next new object or the next copy, and is then no
longer armed; the failure of conversions stays until it is switched off.
-/

namespace Custody

open Text

namespace Memory

/-! ## Giving objects -/

/-- Issue a new object, unless a failure is armed or there is none to issue. -/
def allocate (m : Memory) (object : Option Object) : Option Handle × Memory :=
  if m.failNextAllocation then (none, { m with failNextAllocation := false })
  else
    match object with
    | none => (none, m)
    | some object =>
      let (id, m) := m.issue object
      (some (.ofId id), m.count fun c => { c with allocations := c.allocations + 1 })

/-- Issue an image of a known pixel code and color space. -/
def allocateImage (m : Memory) (r : ImageRequest) : Option Handle × Memory :=
  if (PixelKind.ofCode? r.code).isNone || (ColorSpace.ofCode? r.colorSpace).isNone then (none, m)
  else
    m.allocate <| (ImageObject.zeroed? r.code (r.slices.getD 0) r.height r.width r.channels
      r.colorSpace r.interleaved).map .image

/-- Copy the object that a handle names, if it is of the kind that `accepts` tells, unless a
failure is armed. -/
def cloneIf (m : Memory) (accepts : Object → Bool) (h : Handle) : Option Handle × Memory :=
  if m.failNextClone then (none, { m with failNextClone := false })
  else
    match h.id?, (m.find? h).filter accepts with
    | some id, some _ =>
      match m.copy id with
      | (some made, m) =>
        (some (.ofId made), m.count fun c => { c with clones := c.clones + 1 })
      | (none, m) => (none, m)
    | _, _ => (none, m)

/-- The kind of object that can be copied through a category: tensors and numeric arrays are copied
alike. -/
def copiedAs : Category → Object → Bool
  | .buffer (.array _), .array _ | .image, .image _ | .list, .list _ => true
  | _, _ => false

/-- Issue a converted object, unless conversions are switched off or there is none to issue. -/
def issueConverted (m : Memory) (object : Option Object) : Option Handle × Memory :=
  if m.failConversions then (none, m)
  else
    match object with
    | none => (none, m)
    | some object =>
      let (id, m) := m.issue object
      (some (.ofId id), m.count fun c => { c with conversions := c.conversions + 1 })

/-! ## Showing buffers -/

/-- Answer a question about the array or image that a handle names.  Both categories of arrays
answer alike. -/
def askBuffer {α : Type} (m : Memory) (b : BufferCategory) (h : Handle) (default : α)
    (ofArray : ArrayObject → α) (ofImage : ImageObject → α) : α :=
  match b, m.find? h with
  | .array _, some (.array a) => ofArray a
  | .image, some (.image i) => ofImage i
  | _, _ => default

/-- Answer a question about the image that a handle names. -/
def askImage {α : Type} (m : Memory) (h : Handle) (default : α) (ofImage : ImageObject → α) : α :=
  m.askBuffer .image h default (fun _ => default) ofImage

/-- A node handle of an optional number. -/
def nodeHandle : Option Nat → NodeHandle
  | some id => .ofId id
  | none => .null

end Memory

/-! ## The table -/

/-- The host that answers from `Memory`. -/
def Host.reference : Host where
  newArray category code extents m :=
    m.allocate ((ArrayObject.zeroed? category code extents).map .array)
  newImage request m := m.allocateImage request
  newList m := m.allocate (some (.list ⟨[]⟩))
  clone category h m := m.cloneIf (Memory.copiedAs category) h
  convertArray h code method tolerance m :=
    m.issueConverted do
      let a ← m.array? h
      let target ← ArrayKind.ofCode? code
      let method ← ConvertMethod.ofCode? method
      return .array (← a.convert? target method tolerance)
  convertImage h code interleaved m :=
    m.issueConverted do
      let target ← PixelKind.ofCode? code
      let i ← m.image? h
      return .image (← i.convert? target interleaved)
  free _ h m := m.free h
  disown _ h m := m.disown h
  shareCount _ h m := (m.shares h).toInt
  rank b h m := m.askBuffer b h 0 (fun a => a.extents.length) fun i => if 0 < i.slices then 3 else 2
  extents c h m := m.askBuffer (.array c) h none (fun a => some a.extents) fun _ => none
  length b h m := m.askBuffer b h 0 (fun a => a.length) fun i => i.length
  elementCode b h m :=
    match b with
    | .tensor => m.askBuffer b h 0 (·.code) (·.code)
    | .numeric => m.askBuffer b h 0 (fun a => narrow a.code) (·.code)
    | .image => m.askBuffer b h (-1) (·.code) (·.code)
  storage b h m := m.askBuffer b h none (fun a => some a.storage) fun i => some i.storage
  setStorage b h storage m :=
    m.askBuffer b h m (fun _ => m.setStorage h storage) fun _ => m.setStorage h storage
  colorSpace h m := m.askImage h (-1) (·.colorSpace)
  rows h m := m.askImage h 0 (·.rows)
  columns h m := m.askImage h 0 (·.columns)
  slices h m := m.askImage h 0 (·.slices)
  channels h m := m.askImage h 0 (·.channels)
  hasAlpha h m := m.askImage h false (·.hasAlpha)
  isInterleaved h m := m.askImage h false (·.interleaved)
  listLength h m := ((m.list? h).map fun l => (l.nodes.length : Int)).getD 0
  firstNode h m := Memory.nodeHandle ((m.list? h).bind (·.nodes.head?))
  lastNode h m := Memory.nodeHandle ((m.list? h).bind (·.nodes.getLast?))
  nextNode n m := Memory.nodeHandle (m.nextNode? n)
  nodeName n m := (m.node? n).map (·.name)
  nodeCode n m := ((m.node? n).map (·.code)).getD 0
  nodeValue n m := (m.node? n).map (·.value)
  addNode h name code value m :=
    match h.id? with
    | some id => m.addNode id name code value
    | none => (false, m)
  setSymbol symbol value m :=
    match decode symbol, decode value with
    | .ok symbol, .ok value => (true, m.setSymbol symbol value)
    | _, _ => (false, m)

end Custody
