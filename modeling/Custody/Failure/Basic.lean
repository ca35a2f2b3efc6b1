import Custody.Tag.Value

/-!
# Failures

What can go wrong in the library, each with its cause.  Every failure has a name, under which an
id may be registered, and a message.  Failures of a category of objects are named after the
category, so that a host can tell a refused image from a refused tensor.
-/

namespace Custody

/-! ## Causes -/

/-- Why an operation of the library failed. -/
inductive Failure where
  | hostNotInstalled
  | allocation (category : Category)
  | clone (category : Category)
  /-- There is no handle: it is null, or the container was emptied. -/
  | nullHandle (category : Category)
  | notShareable (category : Category)
  | conversion (category : Category) (target : String)
  /-- The element code is none that the library knows. -/
  | unknownElement (category : Category) (code : Int)
  | elementMismatch (category : Category) (expected actual : String)
  | size (category : Category) (expected actual : Nat)
  /-- A value of this kind cannot be stored in a list. -/
  | unstorable (code : Int)
  | nullNode
  | nodeMismatch (expected : ArgumentKind) (actual : Int)
  | unreadableNode
  | argumentIndex (index count : Nat)
  /-- The text cannot cross between library and host. -/
  | badText (reason : String)
  | nameConflict (name : String)
  | unknownName (name : String)
  | unknownId (id : Int)
  /-- The host refused the value of a symbol. -/
  | reportRefused (symbol : String)
  /-- A condition that the library's author registered. -/
  | custom (name message : String)
  deriving DecidableEq, Repr

/-! ## Names -/

/-- What a failure of a category is about. -/
inductive Concern where
  | new | clone | init | share | conversion | elementKind | type | size
  deriving DecidableEq, Repr

namespace Concern

/-- Every concern, in the order in which the conditions are registered. -/
def all : List Concern := [new, clone, init, share, conversion, elementKind, type, size]

/-- The part of a condition's name that tells the concern. -/
def name : Concern → String
  | new => "New"
  | clone => "Clone"
  | init => "Init"
  | share => "Share"
  | conversion => "Conversion"
  | elementKind => "ElementKind"
  | type => "Type"
  | size => "Size"

def conditionName (concern : Concern) (category : Category) : String :=
  category.name ++ concern.name ++ "Error"

def conditionMessage (concern : Concern) (category : Category) : String :=
  let label := category.label
  match concern with
  | new => "Failed to create a new " ++ label ++ "."
  | clone => "Failed to clone a " ++ label ++ "."
  | init => "Failed to construct a " ++ label ++ " from a null handle."
  | share => "A " ++ label ++ " cannot be shared with the host."
  | conversion => "Failed to convert a " ++ label ++ " to a different type."
  | elementKind => "A " ++ label ++ " has an element type that is not supported."
  | type => "An error was caused by a " ++ label ++ " type mismatch."
  | size => "An error was caused by an incorrect " ++ label ++ " size."

end Concern

namespace Failure

/-- The name under which a failure is registered. -/
def name : Failure → String
  | hostNotInstalled => "HostNotInitializedError"
  | allocation c => Concern.new.conditionName c
  | clone c => Concern.clone.conditionName c
  | nullHandle c => Concern.init.conditionName c
  | notShareable c => Concern.share.conditionName c
  | conversion c _ => Concern.conversion.conditionName c
  | unknownElement c _ => Concern.elementKind.conditionName c
  | elementMismatch c _ _ => Concern.type.conditionName c
  | size c _ _ => Concern.size.conditionName c
  | unstorable _ => "DataListPushBackTypeError"
  | nullNode => "DataListNullNodeError"
  | nodeMismatch _ _ => "DataListInvalidNodeTypeError"
  | unreadableNode => "DataListNodeDataError"
  | argumentIndex _ _ => "ArgumentIndexError"
  | badText _ => "ArgumentStringError"
  | nameConflict _ => "ErrorRegistryConflictError"
  | unknownName _ => "ErrorRegistryNameError"
  | unknownId _ => "ErrorRegistryIdError"
  | reportRefused _ => "FailureReportError"
  | custom name _ => name

/-- The identifier of the kind of failure, for diagnostic texts. -/
def identifier : Failure → String
  | hostNotInstalled => "HostNotInitialized"
  | allocation _ => "Allocation"
  | clone _ => "Clone"
  | nullHandle _ => "InvalidHandle"
  | notShareable _ => "NotShareable"
  | conversion _ _ => "Conversion"
  | unknownElement _ _ => "UnsupportedElementKind"
  | elementMismatch _ _ _ => "TypeMismatch"
  | size _ _ _ => "Size"
  | unstorable _ => "UnsupportedNodeType"
  | nullNode => "NullNode"
  | nodeMismatch _ _ => "InvalidNodeType"
  | unreadableNode => "NodeData"
  | argumentIndex _ _ => "ArgumentIndex"
  | badText _ => "InvalidString"
  | nameConflict _ => "ErrorNameConflict"
  | unknownName _ => "UnknownErrorName"
  | unknownId _ => "UnknownErrorId"
  | reportRefused _ => "Report"
  | custom _ _ => "Custom"

/-! ## Messages -/

def message : Failure → String
  | hostNotInstalled => "host callbacks are not installed"
  | allocation c => "host refused to allocate a " ++ c.label
  | clone c => "host failed to clone a " ++ c.label
  | nullHandle c => "cannot wrap a null " ++ c.label ++ " handle"
  | notShareable c => "a " ++ c.label ++ " cannot be shared with the host"
  | conversion c target => "host rejected conversion of a " ++ c.label ++ " to " ++ target
  | unknownElement c code => "unsupported " ++ c.label ++ " element kind " ++ toString code
  | elementMismatch c expected actual =>
    c.label ++ " holds " ++ actual ++ " elements, expected " ++ expected
  | size c expected actual =>
    c.label ++ " of " ++ toString expected ++ " elements cannot hold " ++ toString actual ++
      " values"
  | unstorable code =>
    "argument type " ++ toString code ++ " cannot be stored in a data list node"
  | nullNode => "data list node handle is null"
  | nodeMismatch expected actual =>
    "data list node holds argument type " ++ toString actual ++ ", expected " ++ expected.label
  | unreadableNode => "host failed to read a data list node"
  | argumentIndex index count =>
    "argument index " ++ toString index ++ " out of range for " ++ toString count ++ " arguments"
  | badText reason => "invalid string: " ++ reason
  | nameConflict name => "error " ++ name ++ " is already registered with a different message"
  | unknownName name => "no error registered under the name " ++ name
  | unknownId id => "no error registered with id " ++ toString id
  | reportRefused symbol => "host rejected the value of symbol " ++ symbol
  | custom name message => name ++ ": " ++ message

end Failure

end Custody
