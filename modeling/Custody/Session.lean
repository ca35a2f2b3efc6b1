import Custody.Failure.Registry
import Custody.Host.Table

/-!
# Sessions and actions

A session is all that lasts between two calls of the library: the memory of the host, the host
that is installed, the configuration, the registered conditions, and the text of the last text
result.

An action runs on a session.  It gives a value, or it stops: with a failure, which has a cause, or
with a panic, which is a mistake of the library's author.  What it did to the session before it
stopped stays done.
-/

namespace Custody

open Text

/-! ## Configuration -/

/-- What the library is configured with when a host is installed. -/
structure Config where
  /-- The symbol of the host that receives the details of the last failure. -/
  failureSymbol : String := "HostLink`$LastFailureParameters"
  /-- Whether a panic ends the process instead of being reported. -/
  abortOnPanic : Bool := false
  deriving DecidableEq, Repr

/-! ## Sessions -/

/-- The text of the last text result, and how many there were.  The host reads a text result from
here, so it can be read until the next one. -/
structure TextResult where
  bytes : Bytes := []
  serial : Nat := 0
  deriving DecidableEq, Repr

structure Session where
  memory : Memory := {}
  host : Option Host := none
  config : Config := {}
  registry : Registry := .fresh
  textResult : TextResult := {}

namespace Session

/-- Install a host, in place of any other. -/
def install (s : Session) (host : Host) (config : Config) : Session :=
  { s with host := some host, config }

/-- Install a host that starts anew: all objects of the memory are forgotten, and the next one gets
the first handle again.  The registered conditions stay. -/
def restart (s : Session) (host : Host) (config : Config) : Session :=
  { s.install host config with memory := {} }

/-- Remove the host; the configuration is the default again. -/
def uninstall (s : Session) : Session := { s with host := none, config := {} }

end Session

/-! ## Actions -/

inductive Stop where
  | failure (cause : Failure)
  | panic
  deriving DecidableEq, Repr

abbrev SessionM := EStateM Stop Session

namespace SessionM

variable {α : Type}

def fail (cause : Failure) : SessionM α := throw (.failure cause)

/-- Go on with a value, or stop with the failure. -/
def ofExcept : Except Failure α → SessionM α
  | .ok a => pure a
  | .error cause => fail cause

def memory : SessionM Memory := do return (← get).memory

/-- Let the host act on its memory. -/
def onMemory (f : Memory → α × Memory) : SessionM α :=
  modifyGet fun s => ((f s.memory).1, { s with memory := (f s.memory).2 })

def change (f : Memory → Memory) : SessionM Unit := modify fun s => { s with memory := f s.memory }

def installedHost : SessionM Host := do
  match (← get).host with
  | some host => return host
  | none => fail .hostNotInstalled

/-- Run an action to its failure; a panic is passed on. -/
def attempt (x : SessionM α) : SessionM (Except Failure α) := fun s =>
  match x s with
  | .ok a s => .ok (.ok a) s
  | .error (.failure cause) s => .ok (.error cause) s
  | .error .panic s => .error .panic s

end SessionM

/-- The bytes of a text that crosses to the host. -/
def encodeText (s : String) : Except Failure Bytes :=
  (encode s).mapError fun flaw => .badText flaw.reason

/-- The text of bytes that come from the host, if there are any. -/
def decodeText : Option Bytes → Except Failure String
  | some bytes => (decode bytes).mapError fun flaw => .badText flaw.reason
  | none => .error (.badText Flaw.missing.reason)

end Custody
