/-!
# Records in diagnostic texts

How a value with named parts is shown to the author of a library: the name of its type, then the
parts in braces, in their order.
-/

namespace Custody.Text

/-- A part with its name. -/
def part (name value : String) : String := name ++ ": " ++ value

/-- A record, such as `Point { x: 1, y: 2 }`. -/
def record (name : String) (parts : List (String × String)) : String :=
  name ++ " \x7b " ++ ", ".intercalate (parts.map fun p => part p.1 p.2) ++ " \x7d"

/-- A value in a wrapper, such as `Some(1)`. -/
def wrapped (name value : String) : String := name ++ "(" ++ value ++ ")"

end Custody.Text
