import Custody.Host.Table

/-!
# Hosts with replaced functions

A host that differs from another in one of its functions: one that refuses, or one that answers the
same to every question.  A library has to bear every such host.
-/

namespace Custody

open Text

/-- Which functions of a host are replaced, and what they answer instead. -/
inductive Replacement where
  | noNewBuffer
  | noClone
  | noArrayConversion
  /-- Reading a node's name does nothing; whether that counts as success. -/
  | nodeNameStatus (succeeds : Bool)
  /-- Reading a node's value does nothing; whether that counts as success. -/
  | nodeValueStatus (succeeds : Bool)
  /-- Appending a node does nothing; whether that counts as success. -/
  | addNodeStatus (succeeds : Bool)
  /-- Assigning a symbol does nothing; whether that counts as success. -/
  | setSymbolStatus (succeeds : Bool)
  /-- Every node has this name. -/
  | nodeName (bytes : Bytes)
  /-- Every node holds this text. -/
  | nodeText (bytes : Bytes)
  /-- Every node has this code. -/
  | nodeCode (code : Int)
  | noExtents
  | noArrayStorage
  | rank (value : Int)
  /-- Everything has this length. -/
  | length (value : Int)
  | slices (value : Int)
  | colorSpace (code : Int)
  | pixelCode (code : Int)
  /-- Every image answers this to whether it has an alpha channel and whether it is interleaved. -/
  | imageFlags (value : Bool)
  | shareCount (value : Int)
  deriving DecidableEq, Repr

/-- The replacement of a name.  Most of them answer a number, which is narrowed for a code, a flag or
a status, and a status is good if it is 0; two answer a text. -/
def Replacement.ofName? (name : String) (number : Int) (bytes : Bytes) : Option Replacement :=
  match name with
  | "new_null" => some .noNewBuffer
  | "clone_null" => some .noClone
  | "convert_null" => some .noArrayConversion
  | "node_name_error" => some (.nodeNameStatus (narrow number == 0))
  | "node_data_error" => some (.nodeValueStatus (narrow number == 0))
  | "add_error" => some (.addNodeStatus (narrow number == 0))
  | "symbol_error" => some (.setSymbolStatus (narrow number == 0))
  | "node_name_bytes" => some (.nodeName bytes)
  | "node_data_bytes" => some (.nodeText bytes)
  | "node_type" => some (.nodeCode (narrow number))
  | "dims_null" => some .noExtents
  | "data_null" => some .noArrayStorage
  | "rank" => some (.rank number)
  | "length" => some (.length number)
  | "slices" => some (.slices number)
  | "color_space" => some (.colorSpace (narrow number))
  | "image_type" => some (.pixelCode (narrow number))
  | "image_flags" => some (.imageFlags (narrow number != 0))
  | "share_count" => some (.shareCount number)
  | _ => none

/-- The host with functions replaced. -/
def Host.replace (host : Host) : Replacement → Host
  | .noNewBuffer =>
    { host with newArray := fun _ _ _ m => (none, m), newImage := fun _ m => (none, m) }
  | .noClone => { host with clone := fun _ _ m => (none, m) }
  | .noArrayConversion => { host with convertArray := fun _ _ _ _ m => (none, m) }
  | .nodeNameStatus succeeds =>
    { host with nodeName := fun _ _ => if succeeds then some none else none }
  | .nodeValueStatus succeeds =>
    { host with nodeValue := fun _ _ => if succeeds then some .empty else none }
  | .addNodeStatus succeeds => { host with addNode := fun _ _ _ _ m => (succeeds, m) }
  | .setSymbolStatus succeeds => { host with setSymbol := fun _ _ m => (succeeds, m) }
  | .nodeName bytes => { host with nodeName := fun _ _ => some (some bytes) }
  | .nodeText bytes => { host with nodeValue := fun _ _ => some (.text bytes) }
  | .nodeCode code => { host with nodeCode := fun _ _ => code }
  | .noExtents => { host with extents := fun _ _ _ => none }
  | .noArrayStorage =>
    { host with
      storage := fun b h m =>
        match b with
        | .array _ => none
        | .image => host.storage .image h m }
  | .rank value => { host with rank := fun _ _ _ => value }
  | .length value => { host with length := fun _ _ _ => value, listLength := fun _ _ => value }
  | .slices value => { host with slices := fun _ _ => value }
  | .colorSpace code => { host with colorSpace := fun _ _ => code }
  | .pixelCode code =>
    { host with
      elementCode := fun b h m =>
        match b with
        | .image => code
        | .array c => host.elementCode (.array c) h m }
  | .imageFlags value =>
    { host with hasAlpha := fun _ _ => value, isInterleaved := fun _ _ => value }
  | .shareCount value => { host with shareCount := fun _ _ _ => value }

end Custody
