import Custody.Container.Shape

/-!
# New and converted objects

The library asks the installed host for new objects, and the host of a container for a conversion.
It owns what it is given.
-/

namespace Custody

open SessionM

namespace Container

/-! ## New objects -/

/-- Own what the host gave, or stop with the failure. -/
def own (c : Category) (host : Host) (cause : Failure)
    (request : Memory → Option Handle × Memory) : SessionM (Container c) := do
  match ← onMemory request with
  | some h => return ⟨h, .library, host⟩
  | none => fail cause

/-- A zeroed tensor or numeric array. -/
def newArray (c : ArrayCategory) (kind : (BufferCategory.array c).Kind) (extents : List Int) :
    SessionM (Container (.buffer (.array c))) := do
  let host ← installedHost
  own _ host (.allocation (.buffer (.array c))) (host.newArray c kind.code extents)

def newImage (request : ImageRequest) : SessionM (Container .image) := do
  let host ← installedHost
  own _ host (.allocation .image) (host.newImage request)

def newList : SessionM (Container .list) := do
  let host ← installedHost
  own _ host (.allocation .list) host.newList

/-! ## Conversions -/

/-- A copy with another element kind.  The source stays as it is. -/
def convertArray (k : Container .numeric) (target : ArrayKind) (method : ConvertMethod)
    (tolerance : Number.Double) : SessionM (Container .numeric) := do
  let h ← ofExcept k.require
  own _ k.host (.conversion .numeric target.label)
    (k.host.convertArray h target.code method.code tolerance)

/-- A copy with another pixel kind and layout.  The source stays as it is. -/
def convertImage (k : Container .image) (target : PixelKind) (interleaved : Bool) :
    SessionM (Container .image) := do
  let h ← ofExcept k.require
  own _ k.host (.conversion .image target.label) (k.host.convertImage h target.code interleaved)

/-- A copy with another pixel kind and the layout of the source. -/
def convertPixels (k : Container .image) (target : PixelKind) : SessionM (Container .image) := do
  convertImage k target (k.isInterleaved (← memory))

end Container

end Custody
