import Custody.Ownership
import Custody.Session
import Custody.Text.Hex
import Custody.Text.Record

/-!
# Containers

A container holds the handle of an object, with its owner and with the host that issued it.  It
keeps asking that host even when another one is installed later.

A container is dropped once.  Dropping releases the handle as the owner says; a container that was
emptied has nothing to release.  Whoever takes a container over, drops it or passes it on.
-/

namespace Custody

open SessionM Text

/-- A handle of one category, with its owner and its host. -/
structure Container (c : Category) where
  handle : Handle
  owner : Ownership
  host : Host

abbrev AnyContainer := (c : Category) × Container c

namespace Container

variable {c : Category}

/-! ## The handle -/

def isEmpty (k : Container c) : Bool := k.handle.isNull

/-- The handle, if there is one. -/
def require (k : Container c) : Except Failure Handle :=
  if k.isEmpty then .error (.nullHandle c) else .ok k.handle

/-- Ask the host about the handle; an empty container gives the default answer. -/
def ask {α : Type} (k : Container c) (default : α) (question : Host → Handle → α) : α :=
  if k.isEmpty then default else question k.host k.handle

/-- A container of a handle that is not null. -/
def adopt (c : Category) (host : Host) (h : Handle) (owner : Ownership) :
    Except Failure (Container c) :=
  if h.isNull then .error (.nullHandle c) else .ok ⟨h, owner, host⟩

/-- The container without its handle.  Dropping it does nothing, and the handle is released by
nobody. -/
def emptied (k : Container c) : Container c := { k with handle := .null }

/-- The handle as the result of a call.  The container is used up: the handle is now the host's. -/
def asResult (k : Container c) : Except Failure Payload := k.require.map .handle

/-! ## Acquiring and copying -/

/-- A deep copy of an object. -/
def copyHandle (c : Category) (host : Host) (h : Handle) : SessionM Handle := do
  match ← onMemory (host.clone c h) with
  | some copied => return copied
  | none => fail (.clone c)

/-- Wrap a handle of a host.  A category that is never shared is refused before anything is
copied. -/
def wrapFor (c : Category) (host : Host) (h : Handle) (passing : Passing) :
    SessionM (Container c) := do
  -- a null handle is refused first, whatever the policy is
  let adopted ← ofExcept (adopt c host h passing.owner)
  if passing = .shared ∧ c.shareable = false then fail (.notShareable c)
  else
    match passing.acquire with
    | .adopt => return adopted
    | .clone => return { adopted with handle := ← copyHandle c host h }

def wrap (c : Category) (h : Handle) (passing : Passing) : SessionM (Container c) := do
  wrapFor c (← installedHost) h passing

/-- A deep copy that the library owns. -/
def tryClone (k : Container c) : SessionM (Container c) := do
  let h ← ofExcept k.require
  return ⟨← copyHandle c k.host h, .library, k.host⟩

/-! ## Releasing -/

/-- The memory after the host gave up a share; lists have no shares. -/
def disownIn (k : Container c) (m : Memory) : Memory :=
  match c with
  | .buffer b => k.host.disown b k.handle m
  | .list => m

/-- The memory after the handle was released as its owner says. -/
def releaseIn (k : Container c) (m : Memory) : Memory :=
  if k.isEmpty then m
  else
    match k.owner.release with
    | .free => k.host.free c k.handle m
    | .disown => k.disownIn m
    | .keep => m

def drop (k : Container c) : SessionM Unit := change k.releaseIn

/-- The share count of the handle; lists have none. -/
def shares (k : Container c) (m : Memory) : Int :=
  match c with
  | .buffer b => k.ask 0 fun host h => host.shareCount b h m
  | .list => 0

/-! ## Showing -/

def text (k : Container c) : String :=
  record "Container"
    [("type", c.name), ("raw", address k.handle.addr), ("owner", k.owner.name)]

end Container

end Custody
