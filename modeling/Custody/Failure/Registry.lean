import Custody.Failure.Basic
import Custody.Text.Json

/-!
# The registry of conditions

A host understands failures only by number.  The registry gives every named condition an id: the
host's own conditions have the ids 7 down to 0, and every further condition the next lower one, in
the order of registration.

A name is registered once.  Registering it again with its message gives the id it has; with another
message it is refused.  Nothing is ever changed or removed.
-/

namespace Custody

open Text (Json)

/-! ## The registry -/

structure Condition where
  id : Int
  name : String
  message : String
  deriving DecidableEq, Repr

/-- The conditions in the order of registration, and the id of the next one. -/
structure Registry where
  conditions : List Condition
  nextId : Int
  deriving DecidableEq, Repr

namespace Registry

/-- The registry without any condition.  Ids start at that of an incompatible version. -/
def empty : Registry := ⟨[], 7⟩

/-- Add a condition under the next id. -/
def append (r : Registry) (name message : String) : Registry :=
  ⟨r.conditions ++ [⟨r.nextId, name, message⟩], r.nextId - 1⟩

/-! ## Conditions that are always there -/

/-- The id that says that a call succeeded. -/
def successId : Int := 0

/-- The id that says that a call failed, and nothing more. -/
def functionErrorId : Int := 6

/-- The host's own conditions. -/
def hostConditions : List (String × String) :=
  [("VersionError", "An error was caused by an incompatible function call. " ++
      "The library was compiled with a previous host version."),
   ("FunctionError", "An error occurred in the library function."),
   ("MemoryError", "An error was caused by failed memory allocation or insufficient memory."),
   ("NumericalError", "A numerical error was encountered."),
   ("DimensionsError",
     "An error caused by inconsistent dimensions or by exceeding array bounds."),
   ("RankError", "An error was caused by a tensor with an inconsistent rank."),
   ("TypeError", "An error caused by inconsistent types was encountered."),
   ("NoError", "No errors occurred.")]

/-- The library's conditions that belong to no category of objects. -/
def libraryConditions : List (String × String) :=
  [("HostNotInitializedError",
     "Host callbacks were not installed before the library function ran."),
   ("ArgumentIndexError", "An error was caused by an incorrect argument index."),
   ("ArgumentStringError",
     "A string argument was not valid UTF-8 or contained an interior NUL."),
   ("DataListPushBackTypeError", "Element to be added to the DataList has incorrect type."),
   ("DataListNullNodeError", "DataStoreNode passed to Node wrapper was null."),
   ("DataListInvalidNodeTypeError",
     "DataStoreNode passed to Node wrapper carries data of invalid type."),
   ("DataListNodeDataError", "Failed to read the data of a DataStoreNode."),
   ("ErrorRegistryIdError", "An error was raised with a non-existent id."),
   ("ErrorRegistryNameError", "An error was raised with a non-existent name."),
   ("ErrorRegistryConflictError", "An error was registered with a name that already exists."),
   ("FailureReportError", "The host rejected a failure report.")]

/-- The conditions of every category of objects. -/
def categoryConditions : List (String × String) :=
  Category.all.flatMap fun category =>
    Concern.all.map fun concern =>
      (concern.conditionName category, concern.conditionMessage category)

/-- The conditions that every registry starts with. -/
def builtin : List (String × String) := hostConditions ++ libraryConditions ++ categoryConditions

def fresh : Registry := builtin.foldl (fun r condition => r.append condition.1 condition.2) empty

/-! ## Looking up -/

/-- The condition of a name, if it is registered. -/
def byName? (r : Registry) (name : String) : Option Condition :=
  r.conditions.find? (·.name == name)

/-- The condition of an id, if it is registered. -/
def byId? (r : Registry) (id : Int) : Option Condition :=
  r.conditions.find? (·.id == id)

def findByName (r : Registry) (name : String) : Except Failure Condition :=
  match r.byName? name with
  | some condition => .ok condition
  | none => .error (.unknownName name)

def findById (r : Registry) (id : Int) : Except Failure Condition :=
  match r.byId? id with
  | some condition => .ok condition
  | none => .error (.unknownId id)

/-! ## Registering -/

/-- Register a condition, or find it registered with this message; its id, and the registry then. -/
def register (r : Registry) (name message : String) : Except Failure Int × Registry :=
  match r.byName? name with
  | some condition =>
    if condition.message = message then (.ok condition.id, r) else (.error (.nameConflict name), r)
  | none => (.ok r.nextId, r.append name message)

/-- Register several conditions, up to the first that is refused. -/
def registerAll (r : Registry) : List (String × String) → Except Failure Unit × Registry
  | [] => (.ok (), r)
  | (name, message) :: rest =>
    match r.register name message with
    | (.ok _, next) => next.registerAll rest
    | (.error failure, next) => (.error failure, next)

/-! ## Export -/

/-- The registry as an object: the name of each condition with its id and message. -/
def toJson (r : Registry) : Json :=
  Json.object <| r.conditions.map fun condition =>
    (condition.name,
      Json.object [("id", .int condition.id), ("message", .str condition.message)])

end Registry

/-! ## Failures and the registry -/

/-- The id by which a host learns of a failure.  A name that is not registered counts as an error of
the function. -/
def Failure.id (failure : Failure) (r : Registry) : Int :=
  match r.byName? failure.name with
  | some condition => condition.id
  | none => Registry.functionErrorId

/-- The failure of a registered condition, with its message. -/
def Registry.failure (r : Registry) (name : String) : Failure :=
  match r.byName? name with
  | some condition => .custom condition.name condition.message
  | none => .unknownName name

end Custody
