import Custody.Memory.Basic

/-!
# The table of a host

All that a library can ask of a host, as a table of functions on the host's memory.  A library
knows a host by this table alone: it never looks into the memory itself.

A host may refuse to give an object; that is `none`.  Questions about a handle that names nothing
have an answer too, which is up to the host.
-/

namespace Custody

open Number Text

/-- The signed 32-bit integer that is left of an integer when its higher bits are dropped.  Codes,
flags and statuses are such integers, whatever a host has at hand. -/
def narrow (i : Int) : Int := Int.bmod i 0x100000000

/-- What a library asks for when it asks for a new image. -/
structure ImageRequest where
  slices : Option Int
  width : Int
  height : Int
  channels : Int
  code : Int
  colorSpace : Int
  interleaved : Bool
  deriving DecidableEq, Repr

structure Host where
  /-- A zeroed array of an element code and extents. -/
  newArray : ArrayCategory → Int → List Int → Memory → Option Handle × Memory
  newImage : ImageRequest → Memory → Option Handle × Memory
  newList : Memory → Option Handle × Memory
  clone : Category → Handle → Memory → Option Handle × Memory
  /-- A numeric array converted to an element code, by the code of a method. -/
  convertArray : Handle → Int → Int → Double → Memory → Option Handle × Memory
  /-- An image converted to a pixel code and a layout. -/
  convertImage : Handle → Int → Bool → Memory → Option Handle × Memory
  free : Category → Handle → Memory → Memory
  disown : BufferCategory → Handle → Memory → Memory
  shareCount : BufferCategory → Handle → Memory → Int
  /-- The number of axes; for an image, without that of the channels. -/
  rank : BufferCategory → Handle → Memory → Int
  /-- The extents of an array, if the host shows them. -/
  extents : ArrayCategory → Handle → Memory → Option (List Int)
  length : BufferCategory → Handle → Memory → Int
  elementCode : BufferCategory → Handle → Memory → Int
  /-- The elements, if the host shows them. -/
  storage : BufferCategory → Handle → Memory → Option Storage
  /-- Overwrite the elements that the host shows. -/
  setStorage : BufferCategory → Handle → Storage → Memory → Memory
  colorSpace : Handle → Memory → Int
  rows : Handle → Memory → Int
  columns : Handle → Memory → Int
  slices : Handle → Memory → Int
  channels : Handle → Memory → Int
  hasAlpha : Handle → Memory → Bool
  isInterleaved : Handle → Memory → Bool
  listLength : Handle → Memory → Int
  /-- The first node, null if there is none. -/
  firstNode : Handle → Memory → NodeHandle
  /-- The last node, null if there is none. -/
  lastNode : Handle → Memory → NodeHandle
  /-- The node after a node, null if there is none. -/
  nextNode : NodeHandle → Memory → NodeHandle
  /-- The name of a node, if it can be read; a node may have no name. -/
  nodeName : NodeHandle → Memory → Option (Option Bytes)
  nodeCode : NodeHandle → Memory → Int
  /-- What a node holds, if it can be read. -/
  nodeValue : NodeHandle → Memory → Option Payload
  /-- Append a node to a list, under a name and a code; whether the host accepted it. -/
  addNode : Handle → Option Bytes → Int → Payload → Memory → Bool × Memory
  /-- Assign a symbol; whether the host accepted it. -/
  setSymbol : Bytes → Bytes → Memory → Bool × Memory

end Custody
