/-!
# Hexadecimal digits

Words are written with the digits 0 to 9 and a to f, with as many of them as the word has half
bytes.
-/

namespace Custody.Text

/-- A number with at least `width` digits. -/
def hex (width n : Nat) : String :=
  let digits := Nat.toDigits 16 n
  String.ofList (List.replicate (width - digits.length) '0' ++ digits)

/-- The value of a digit, which may also be a capital letter. -/
def hexValue? (c : Char) : Option Nat :=
  if '0' ≤ c ∧ c ≤ '9' then some (c.toNat - 48)
  else if 'a' ≤ c ∧ c ≤ 'f' then some (c.toNat - 87)
  else if 'A' ≤ c ∧ c ≤ 'F' then some (c.toNat - 55)
  else none

/-- The number of exactly `width` digits. -/
def ofHex? (width : Nat) (s : String) : Option Nat :=
  if s.length = width then
    s.toList.foldlM (fun n c => (hexValue? c).map (16 * n + ·)) 0
  else none

def address (n : Nat) : String := "0x" ++ hex 1 n

end Custody.Text
