import Custody.Session

/-!
# Reports to the host

A host learns of a failure by its id alone.  The details go to a symbol of the host, as a JSON
text; the whole registry can be published in the same way.

A report that the host does not take is lost, and nothing else happens.
-/

namespace Custody

open SessionM Text

/-- Assign a symbol of a host. -/
def setSymbol (host : Host) (symbol value : String) : SessionM Unit := do
  let name ← ofExcept (encodeText symbol)
  let text ← ofExcept (encodeText value)
  if ← onMemory (host.setSymbol name text) then pure () else fail (.reportRefused symbol)

/-- Publish the registry under a symbol. -/
def publishConditions (symbol : String) : SessionM Unit := do
  let host ← installedHost
  setSymbol host symbol (← get).registry.toJson.render

/-- The details of a failure: its id with the registered message, its name, and its own message. -/
def Failure.details (failure : Failure) (r : Registry) : Json :=
  let id := failure.id r
  Json.object
    [("name", .str failure.name),
     ("id", .int id),
     ("message", .str (((r.byId? id).map (·.message)).getD "")),
     ("parameters", .str failure.message)]

/-- Report a failure under the configured symbol, if a host is installed. -/
def report (failure : Failure) : SessionM Unit := do
  let s ← get
  match s.host with
  | none => pure ()
  | some host =>
    let _ ← attempt (setSymbol host s.config.failureSymbol (failure.details s.registry).render)

end Custody
