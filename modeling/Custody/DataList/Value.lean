import Custody.Container.Buffer

/-!
# Values in lists

What is appended to a list and what is read back from it.  Scalars and texts are copied into the
node; an object is stored as its handle.
-/

namespace Custody

open Number Text

/-! ## Plain values -/

/-- A value that is copied. -/
inductive Plain where
  | boolean (value : Bool)
  | integer (value : Int64)
  | real (value : Double)
  | complex (value : Complex .double)
  | text (value : String)
  deriving DecidableEq

namespace Plain

/-- The kind under which a value is stored. -/
def kind : Plain → ArgumentKind
  | boolean _ => .boolean
  | integer _ => .integer
  | real _ => .real
  | complex _ => .complex
  | text _ => .text

/-- The value as it is stored; a text with a NUL cannot be. -/
def payload : Plain → Except Failure Payload
  | boolean value => .ok (.boolean value)
  | integer value => .ok (.integer value)
  | real value => .ok (.real value)
  | complex value => .ok (.complex value)
  | text value => (encodeText value).map .text

/-- The stored value of a kind, if values of the kind are plain. -/
def read (kind : ArgumentKind) (p : Payload) : Option (Except Failure Plain) :=
  match kind with
  | .boolean => some (.ok (boolean p.asBoolean))
  | .integer => some (.ok (integer p.asInteger))
  | .real => some (.ok (real p.asReal))
  | .complex => some (.ok (complex p.asComplex))
  | .text => some ((decodeText p.asText?).map text)
  | _ => none

end Plain

/-! ## What is appended -/

/-- A value to be appended. -/
inductive Item where
  | plain (value : Plain)
  /-- An object; the list takes it over. -/
  | container {c : Category} (k : Container c)

/-- A value to be appended, with objects given by their handles. -/
inductive RawItem where
  | plain (value : Plain)
  /-- A tensor or a numeric array: the handle does not tell which. -/
  | array (h : Handle)
  | image (h : Handle)
  | list (h : Handle)
  deriving DecidableEq

/-- The kind under which a value is stored, if it can be told. -/
def RawItem.kind? : RawItem → Option ArgumentKind
  | plain value => some value.kind
  | array _ => none
  | image _ => some .image
  | list _ => some .dataList

/-! ## What is read back -/

/-- A value that was read from a node. -/
inductive NodeValue where
  | plain (value : Plain)
  /-- An object.  The list keeps it, so dropping the view releases nothing. -/
  | view {c : Category} (k : Container c)

def NodeValue.kind : NodeValue → ArgumentKind
  | plain value => value.kind
  | view (c := c) _ => c.argumentKind

end Custody
