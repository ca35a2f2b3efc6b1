/-!
# JSON, as it is written

The part of JSON that reports use: integers, strings and objects.  An object keeps its members in
increasing order of their names, which for texts is also the order of their UTF-8 bytes, and no name
occurs twice.  Everything is written without blanks.
-/

namespace Custody.Text

inductive Json where
  | int (value : Int)
  | str (value : String)
  | obj (members : List (String × Json))

namespace Json

/-! ## Building objects -/

/-- Put a member at its place; a member of the same name is replaced. -/
def insertMember (name : String) (value : Json) : List (String × Json) → List (String × Json)
  | [] => [(name, value)]
  | (other, present) :: rest =>
    if name < other then (name, value) :: (other, present) :: rest
    else if name = other then (name, value) :: rest
    else (other, present) :: insertMember name value rest

/-- The object with these members; of two members with one name the later counts. -/
def object (members : List (String × Json)) : Json :=
  .obj (members.foldl (fun sorted member => insertMember member.1 member.2 sorted) [])

/-! ## Writing -/

/-- A hexadecimal digit, in lower case. -/
def hexDigit (n : Nat) : Char := if n < 10 then Char.ofNat (48 + n) else Char.ofNat (87 + n)

/-- A character inside a quoted string.  Quotes, backslashes and control characters are escaped,
five of them by a letter; every other character stands for itself. -/
def escape (c : Char) : List Char :=
  match c with
  | '"' => ['\\', '"']
  | '\\' => ['\\', '\\']
  | '\x08' => ['\\', 'b']
  | '\x0c' => ['\\', 'f']
  | '\n' => ['\\', 'n']
  | '\r' => ['\\', 'r']
  | '\t' => ['\\', 't']
  | c =>
    if c.toNat < 0x20 then
      ['\\', 'u', '0', '0', hexDigit (c.toNat / 16), hexDigit (c.toNat % 16)]
    else [c]

/-- A string in quotes. -/
def quote (s : String) : List Char := '"' :: s.toList.flatMap escape ++ ['"']

/-- The digits of an integer, with a sign if it is negative. -/
def digits : Int → List Char
  | .ofNat n => (Nat.repr n).toList
  | .negSucc n => '-' :: (Nat.repr (n + 1)).toList

mutual

def chars : Json → List Char
  | .int value => digits value
  | .str value => quote value
  | .obj [] => ['\x7b', '\x7d']
  | .obj (member :: rest) => '\x7b' :: memberChars member ++ restChars rest

def memberChars : String × Json → List Char
  | (name, value) => quote name ++ ':' :: chars value

/-- The characters of the members after the first, and of the closing brace. -/
def restChars : List (String × Json) → List Char
  | [] => ['\x7d']
  | member :: rest => ',' :: memberChars member ++ restChars rest

end

def render (j : Json) : String := String.ofList j.chars

end Json

end Custody.Text
