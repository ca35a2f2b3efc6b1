import Custody.Text.Hex
import Custody.Text.Json
import Mathlib.Data.List.Basic

/-!
# JSON, as it is read

A reader for all of JSON: blanks between tokens, literals, numbers with fraction and exponent,
strings with every escape, arrays and objects.  Of what is written here it has to understand a small
part only, but a host reads reports with a reader of this kind, which knows nothing of how they were
written.

What is written is read back as what it was (`Json.read?_render`), and it holds no control character
(`Json.printable_render`).
-/

namespace Custody.Text

/-! ## Values -/

/-- What is read from a text.  A number is its mantissa times a power of ten.  The members of an
object are in the order of the text, repeated names included. -/
inductive JsonValue where
  | null
  | boolean (value : Bool)
  | number (mantissa exponent : Int)
  | string (value : String)
  | array (elements : List JsonValue)
  | object (members : List (String × JsonValue))

namespace JsonValue

/-! ## Strings -/

/-- Where in a string the reader is. -/
inductive StringState where
  /-- Between two characters. -/
  | between
  /-- Behind a backslash. -/
  | escape
  /-- In a unit of 16 bits that is given by its digits: the high surrogate before it, if there was
  one, the number of digits that are missing, at least one, and the value of the others. -/
  | unit (high : Option Nat) (missing value : Nat)
  /-- Behind a high surrogate, where the escape of a low one has to follow. -/
  | pair (high : Nat)
  /-- Behind the backslash of that escape. -/
  | pairEscape (high : Nat)

/-- The character that a letter behind a backslash stands for. -/
def unescape? (c : Char) : Option Char :=
  match c with
  | '"' => some '"'
  | '\\' => some '\\'
  | '/' => some '/'
  | 'b' => some '\x08'
  | 'f' => some '\x0c'
  | 'n' => some '\n'
  | 'r' => some '\r'
  | 't' => some '\t'
  | _ => none

/-- What a unit gives: a character, or a high surrogate that needs a low one. -/
def completeUnit (high : Option Nat) (unit : Nat) : Option (Char ⊕ Nat) :=
  match high with
  | none =>
    if 0xD800 ≤ unit ∧ unit < 0xDC00 then some (.inr unit)
    else if 0xDC00 ≤ unit ∧ unit < 0xE000 then none
    else some (.inl (Char.ofNat unit))
  | some high =>
    if 0xDC00 ≤ unit ∧ unit < 0xE000 then
      some (.inl (Char.ofNat (0x10000 + (high - 0xD800) * 0x400 + (unit - 0xDC00))))
    else none

/-- Put a character in front of what was read. -/
def before (c : Char) (r : List Char × List Char) : List Char × List Char := (c :: r.1, r.2)

/-- The characters up to the closing quote, and what follows it. -/
def readString : StringState → List Char → Option (List Char × List Char)
  | _, [] => none
  | .between, c :: rest =>
    if c = '"' then some ([], rest)
    else if c = '\\' then readString .escape rest
    else if c.toNat < 0x20 then none
    else (readString .between rest).map (before c)
  | .escape, c :: rest =>
    if c = 'u' then readString (.unit none 4 0) rest
    else (unescape? c).bind fun d => (readString .between rest).map (before d)
  | .unit high missing value, c :: rest =>
    match hexValue? c with
    | none => none
    | some digit =>
      if 1 < missing then readString (.unit high (missing - 1) (16 * value + digit)) rest
      else
        match completeUnit high (16 * value + digit) with
        | none => none
        | some (.inl d) => (readString .between rest).map (before d)
        | some (.inr high) => readString (.pair high) rest
  | .pair high, c :: rest => if c = '\\' then readString (.pairEscape high) rest else none
  | .pairEscape high, c :: rest =>
    if c = 'u' then readString (.unit (some high) 4 0) rest else none

/-! ## Numbers -/

/-- The digits in front, of which there has to be one, and what follows them. -/
def readDigits (cs : List Char) : Option (List Char × List Char) :=
  if (cs.takeWhile Char.isDigit).isEmpty then none
  else some (cs.takeWhile Char.isDigit, cs.dropWhile Char.isDigit)

/-- The digits of a fraction, if there is one. -/
def readFraction : List Char → Option (List Char × List Char)
  | [] => some ([], [])
  | c :: rest => if c = '.' then readDigits rest else some ([], c :: rest)

/-- The value of an exponent, 0 if there is none. -/
def readExponent : List Char → Option (Int × List Char)
  | [] => some (0, [])
  | c :: rest =>
    if c = 'e' ∨ c = 'E' then
      match rest with
      | '-' :: rest => (readDigits rest).map fun r => (-(Nat.ofDigitChars 10 r.1 0 : Int), r.2)
      | '+' :: rest => (readDigits rest).map fun r => ((Nat.ofDigitChars 10 r.1 0 : Int), r.2)
      | rest => (readDigits rest).map fun r => ((Nat.ofDigitChars 10 r.1 0 : Int), r.2)
    else some (0, c :: rest)

/-- A number without its sign.  No zero stands in front of other digits. -/
def readUnsigned (cs : List Char) : Option ((Nat × Int) × List Char) := do
  let (whole, rest) ← readDigits cs
  if whole.head? = some '0' ∧ 1 < whole.length then none
  else
    let (fraction, rest) ← readFraction rest
    let (exponent, rest) ← readExponent rest
    return ((Nat.ofDigitChars 10 (whole ++ fraction) 0, exponent - fraction.length), rest)

def readNumber : List Char → Option (JsonValue × List Char)
  | '-' :: rest => (readUnsigned rest).map fun r => (.number (-r.1.1) r.1.2, r.2)
  | cs => (readUnsigned cs).map fun r => (.number r.1.1 r.1.2, r.2)

/-! ## Values in a text -/

def isBlank (c : Char) : Bool := c == ' ' || c == '\t' || c == '\n' || c == '\r'

def skipBlanks (cs : List Char) : List Char := cs.dropWhile isBlank

/-- A value that is written as a word. -/
def readWord (word : String) (value : JsonValue) (cs : List Char) :
    Option (JsonValue × List Char) :=
  if word.toList.isPrefixOf cs then some (value, cs.drop word.length) else none

mutual

/-- A value, nested at most so many levels deep and long, and what follows it. -/
def readValue : (levels : Nat) → List Char → Option (JsonValue × List Char)
  | 0, _ => none
  | levels + 1, cs =>
    match skipBlanks cs with
    | [] => none
    | c :: rest =>
      if c = '"' then
        (readString .between rest).map fun r => (.string (String.ofList r.1), r.2)
      else if c = '[' then
        match skipBlanks rest with
        | ']' :: rest => some (.array [], rest)
        | rest => (readElements levels rest).map fun r => (.array r.1, r.2)
      else if c = '\x7b' then
        match skipBlanks rest with
        | '\x7d' :: rest => some (.object [], rest)
        | rest => (readMembers levels rest).map fun r => (.object r.1, r.2)
      else if c = 'n' then readWord "null" .null (c :: rest)
      else if c = 't' then readWord "true" (.boolean true) (c :: rest)
      else if c = 'f' then readWord "false" (.boolean false) (c :: rest)
      else readNumber (c :: rest)

/-- Elements up to the closing bracket, at least one. -/
def readElements : (levels : Nat) → List Char → Option (List JsonValue × List Char)
  | 0, _ => none
  | levels + 1, cs => do
    let (value, rest) ← readValue levels cs
    match skipBlanks rest with
    | ']' :: rest => return ([value], rest)
    | ',' :: rest =>
      let (elements, rest) ← readElements levels rest
      return (value :: elements, rest)
    | _ => none

/-- Members up to the closing brace, at least one. -/
def readMembers : (levels : Nat) → List Char → Option (List (String × JsonValue) × List Char)
  | 0, _ => none
  | levels + 1, cs =>
    match skipBlanks cs with
    | '"' :: rest => do
      let (name, rest) ← readString .between rest
      match skipBlanks rest with
      | ':' :: rest =>
        let (value, rest) ← readValue levels rest
        match skipBlanks rest with
        | '\x7d' :: rest => return ([(String.ofList name, value)], rest)
        | ',' :: rest =>
          let (members, rest) ← readMembers levels rest
          return ((String.ofList name, value) :: members, rest)
        | _ => none
      | _ => none
    | _ => none

end

/-- The value that a text is, with nothing but blanks around it.  Every level takes a character, so
there are no more levels than characters. -/
def read? (text : String) : Option JsonValue :=
  (readValue (text.length + 1) text.toList).bind fun r =>
    if (skipBlanks r.2).isEmpty then some r.1 else none

example : read? " \x7b\"\\uD83D\\uDE00\" : [-15.0e+2, null ]\x7d" =
    some (.object [("😀", .array [.number (-150) 1, .null])]) := by
  cbv

/-! ## Strings that were written -/

section Strings

variable {rest : List Char}

private theorem hexValue?_hexDigit {n : Nat} (h : n < 16) :
    hexValue? (Json.hexDigit n) = some n := by
  have hall : ∀ n < 16, hexValue? (Json.hexDigit n) = some n := by decide
  exact hall n h

/-- A unit of two zeros and two more digits. -/
private theorem readString_unit {a b : Nat} (ha : a < 16) (hb : b < 16) :
    readString (.unit none 4 0) ('0' :: '0' :: Json.hexDigit a :: Json.hexDigit b :: rest) =
      (readString .between rest).map (before (Char.ofNat (16 * a + b))) := by
  have hzero : hexValue? '0' = some 0 := by decide
  have hcomplete : completeUnit none (16 * a + b) = some (.inl (Char.ofNat (16 * a + b))) := by
    rw [completeUnit, if_neg (by omega), if_neg (by omega)]
  simp [readString, hzero, hexValue?_hexDigit ha, hexValue?_hexDigit hb, hcomplete]

/-- An escaped character is read as the character. -/
private theorem readString_escape (c : Char) :
    readString .between (Json.escape c ++ rest) = (readString .between rest).map (before c) := by
  unfold Json.escape
  split
  case h_8 hquote hbackslash _ _ _ _ _ =>
    split
    case isTrue hcontrol =>
      have hvalue : 16 * (c.toNat / 16) + c.toNat % 16 = c.toNat := Nat.div_add_mod c.toNat 16
      simp only [List.cons_append, List.nil_append]
      rw [readString, if_neg (by decide), if_pos rfl, readString, if_pos rfl,
        readString_unit (by omega) (Nat.mod_lt _ (by decide)), hvalue, Char.ofNat_toNat]
    case isFalse hplain =>
      rw [List.singleton_append, readString, if_neg hquote, if_neg hbackslash, if_neg hplain]
  -- every other character is escaped by a letter
  all_goals rfl

/-- A string is read up to its closing quote. -/
private theorem readString_escaped (cs : List Char) :
    readString .between (cs.flatMap Json.escape ++ '"' :: rest) = some (cs, rest) := by
  induction cs with
  | nil => rfl
  | cons c cs ih =>
    rw [List.flatMap_cons, List.append_assoc, readString_escape, ih]
    rfl

private theorem quote_append (s : String) :
    Json.quote s ++ rest = '"' :: (s.toList.flatMap Json.escape ++ '"' :: rest) := by
  simp [Json.quote]

end Strings

/-! ## Numbers that were written -/

/-- What can stand behind a value. -/
def Ends (rest : List Char) : Prop :=
  rest = [] ∨ ∃ c more, rest = c :: more ∧ (c = ',' ∨ c = '\x7d')

section Numbers

variable {rest : List Char} {n : Nat}

private theorem Ends.takeWhile_isDigit (h : Ends rest) : rest.takeWhile Char.isDigit = [] := by
  rcases h with rfl | ⟨c, more, rfl, rfl | rfl⟩ <;> rfl

private theorem Ends.dropWhile_isDigit (h : Ends rest) : rest.dropWhile Char.isDigit = rest := by
  rcases h with rfl | ⟨c, more, rfl, rfl | rfl⟩ <;> rfl

private theorem Ends.readFraction (h : Ends rest) : readFraction rest = some ([], rest) := by
  rcases h with rfl | ⟨c, more, rfl, rfl | rfl⟩ <;> rfl

private theorem Ends.readExponent (h : Ends rest) : readExponent rest = some (0, rest) := by
  rcases h with rfl | ⟨c, more, rfl, rfl | rfl⟩ <;> rfl

private theorem isDigit_of_mem {c : Char} (h : c ∈ Nat.toDigits 10 n) : c.isDigit = true :=
  Nat.isDigit_of_mem_toDigits (by decide) (by decide) h

private theorem readDigits_toDigits (h : Ends rest) :
    readDigits (Nat.toDigits 10 n ++ rest) = some (Nat.toDigits 10 n, rest) := by
  have hdigits : ∀ c ∈ Nat.toDigits 10 n, c.isDigit = true := fun _ hc => isDigit_of_mem hc
  rw [readDigits, List.takeWhile_append_of_pos hdigits, List.dropWhile_append_of_pos hdigits,
    h.takeWhile_isDigit, h.dropWhile_isDigit, List.append_nil, if_neg]
  simp

/-- A number that is not zero does not start with a zero. -/
private theorem head?_toDigits_ne (h : 0 < n) : (Nat.toDigits 10 n).head? ≠ some '0' := by
  induction n using Nat.strongRecOn with
  | ind n ih =>
    rw [Nat.toDigits_eq_if (by decide)]
    split
    case isTrue hsmall =>
      have hdigit : ∀ d < 10, 0 < d → [d.digitChar].head? ≠ some '0' := by decide
      exact hdigit n hsmall h
    case isFalse hlarge =>
      -- in front stand the digits of the tenth part, which is not zero either
      rw [List.head?_append_of_ne_nil _ Nat.toDigits_ne_nil]
      exact ih (n / 10) (by omega) (by omega)

private theorem toDigits_leads (n : Nat) :
    ¬ ((Nat.toDigits 10 n).head? = some '0' ∧ 1 < (Nat.toDigits 10 n).length) := by
  rintro ⟨hhead, hlength⟩
  rcases n.eq_zero_or_pos with rfl | hpos
  · exact absurd hlength (by decide)
  · exact head?_toDigits_ne hpos hhead

private theorem readUnsigned_repr (h : Ends rest) :
    readUnsigned ((Nat.repr n).toList ++ rest) = some ((n, 0), rest) := by
  rw [Nat.toList_repr, readUnsigned, readDigits_toDigits h]
  simp [toDigits_leads, h.readFraction, h.readExponent, Nat.ofDigitChars_toDigits]

private theorem readNumber_digits (i : Int) (h : Ends rest) :
    readNumber (Json.digits i ++ rest) = some (.number i 0, rest) := by
  cases i with
  | negSucc n =>
    rw [Json.digits, List.cons_append, readNumber, readUnsigned_repr h]
    rfl
  | ofNat n =>
    -- the first character is a digit, so it is no sign
    have hsign : ∀ more, (Nat.repr n).toList ++ rest ≠ '-' :: more := by
      intro more heq
      rw [Nat.toList_repr] at heq
      obtain ⟨c, cs, hc⟩ := List.exists_cons_of_ne_nil (Nat.toDigits_ne_nil (b := 10) (n := n))
      rw [hc, List.cons_append, List.cons.injEq] at heq
      exact absurd (isDigit_of_mem (hc ▸ List.mem_cons_self)) (by rw [heq.1]; decide)
    rw [Json.digits, readNumber.eq_2 _ hsign, readUnsigned_repr h]
    rfl

end Numbers

/-! ## Values that were written -/

end JsonValue

namespace Json

mutual

/-- What is read of what is written. -/
def value : Json → JsonValue
  | .int i => .number i 0
  | .str s => .string s
  | .obj members => .object (memberValues members)

def memberValues : List (String × Json) → List (String × JsonValue)
  | [] => []
  | (name, j) :: rest => (name, j.value) :: memberValues rest

end

theorem memberValues_eq_map (members : List (String × Json)) :
    memberValues members = members.map fun member => (member.1, member.2.value) := by
  induction members with
  | nil => rfl
  | cons member rest ih => rw [memberValues, ih, List.map_cons]

end Json

namespace JsonValue

section Values

variable {rest : List Char}

@[simp] private theorem skipBlanks_cons {c : Char} (h : isBlank c = false) :
    skipBlanks (c :: rest) = c :: rest := by
  simp [skipBlanks, h]

/-- An integer starts with its sign or with a digit. -/
private theorem exists_digits_eq (i : Int) :
    ∃ c cs, Json.digits i = c :: cs ∧ (c = '-' ∨ c.isDigit = true) := by
  cases i with
  | negSucc n => exact ⟨_, _, rfl, .inl rfl⟩
  | ofNat n =>
    obtain ⟨c, cs, hc⟩ := List.exists_cons_of_ne_nil (Nat.toDigits_ne_nil (b := 10) (n := n))
    refine ⟨c, cs, by rw [Json.digits, Nat.toList_repr, hc], .inr ?_⟩
    exact isDigit_of_mem (hc ▸ List.mem_cons_self)

/-- Where a sign or a digit stands, an integer is read. -/
private theorem readValue_digits (i : Int) (levels : Nat) (h : Ends rest) :
    readValue (levels + 1) (Json.digits i ++ rest) = some (.number i 0, rest) := by
  obtain ⟨c, cs, hdigits, hc⟩ := exists_digits_eq i
  have hne : ∀ d : Char, d ≠ '-' → d.isDigit = false → c ≠ d := by
    rintro d hsign hdigit rfl
    rcases hc with rfl | hc
    · exact hsign rfl
    · exact absurd hc (by rw [hdigit]; decide)
  have hblank : isBlank c = false := by
    simp [isBlank, hne ' ' (by decide) rfl, hne '\t' (by decide) rfl, hne '\n' (by decide) rfl,
      hne '\r' (by decide) rfl]
  have hnumber := readNumber_digits i h
  rw [hdigits, List.cons_append] at hnumber ⊢
  rw [readValue, skipBlanks_cons hblank]
  simp only [hne '"' (by decide) rfl, hne '[' (by decide) rfl, hne '\x7b' (by decide) rfl,
    hne 'n' (by decide) rfl, hne 't' (by decide) rfl, hne 'f' (by decide) rfl, if_false]
  exact hnumber

private theorem readValue_quote (s : String) (levels : Nat) :
    readValue (levels + 1) (Json.quote s ++ rest) = some (.string s, rest) := by
  rw [quote_append, readValue, skipBlanks_cons (by decide)]
  simp only [if_pos, readString_escaped, Option.map_some, String.ofList_toList]

private theorem readValue_brace (levels : Nat) (cs : List Char) :
    readValue (levels + 1) ('\x7b' :: '"' :: cs) =
      (readMembers levels ('"' :: cs)).map fun r => (.object r.1, r.2) := by
  rw [readValue, skipBlanks_cons (by decide)]
  simp only [skipBlanks_cons (show isBlank '"' = false by decide)]
  rfl

/-- The name of a member, up to the value. -/
private theorem readMembers_quote (name : String) (levels : Nat) (cs : List Char) :
    readMembers (levels + 1) (Json.quote name ++ ':' :: cs) =
      (readValue levels cs).bind fun r =>
        match skipBlanks r.2 with
        | '\x7d' :: rest => some ([(name, r.1)], rest)
        | ',' :: rest => (readMembers levels rest).bind fun s => some ((name, r.1) :: s.1, s.2)
        | _ => none := by
  rw [quote_append, readMembers, skipBlanks_cons (by decide)]
  simp only [readString_escaped, Option.bind_eq_bind, Option.bind_some,
    skipBlanks_cons (show isBlank ':' = false by decide), String.ofList_toList]
  rfl

private theorem one_lt_length_quote (name : String) : 1 < (Json.quote name).length := by
  simp [Json.quote]

private theorem ends_restChars (members : List (String × Json)) :
    Ends (Json.restChars members ++ rest) := by
  cases members with
  | nil => exact .inr ⟨_, _, rfl, .inr rfl⟩
  | cons member members => exact .inr ⟨_, _, by rw [Json.restChars]; rfl, .inl rfl⟩

mutual

/-- A value is read back, and what follows it is left. -/
private theorem readValue_chars : ∀ (j : Json) {levels : Nat} {rest : List Char},
    j.chars.length < levels → Ends rest →
      readValue levels (j.chars ++ rest) = some (j.value, rest)
  | .int i, levels + 1, rest, _, hends => by
    rw [Json.chars, Json.value]
    exact readValue_digits i levels hends
  | .str s, levels + 1, rest, _, _ => by
    rw [Json.chars, Json.value]
    exact readValue_quote s levels
  | .obj [], levels + 1, rest, _, _ => rfl
  | .obj ((name, j) :: members), levels + 1, rest, hlevels, _ => by
    rw [Json.chars] at hlevels ⊢
    have hmembers := @readMembers_chars members name j levels rest
      (by simp at hlevels; omega)
    -- behind the brace stands the quote of the first name
    obtain ⟨more, hopen⟩ : ∃ more,
        Json.memberChars (name, j) ++ Json.restChars members ++ rest = '"' :: more := ⟨_, rfl⟩
    rw [List.cons_append, List.cons_append]
    rw [hopen] at hmembers ⊢
    rw [readValue_brace, hmembers]
    rfl

private theorem readMembers_chars : ∀ (members : List (String × Json)) (name : String) (j : Json)
    {levels : Nat} {rest : List Char},
    (Json.memberChars (name, j)).length + (Json.restChars members).length < levels →
      readMembers levels (Json.memberChars (name, j) ++ Json.restChars members ++ rest) =
        some ((name, j.value) :: Json.memberValues members, rest)
  | members, name, j, levels + 1, rest, hlevels => by
    have hquote := one_lt_length_quote name
    simp only [Json.memberChars, List.length_append, List.length_cons] at hlevels
    rw [Json.memberChars, List.append_assoc, List.append_assoc, List.cons_append,
      readMembers_quote, readValue_chars j (by omega) (ends_restChars members), Option.bind_some]
    match members with
    | [] => rfl
    | (name, j) :: members =>
      have hmembers := @readMembers_chars members name j levels rest
        (by simp only [Json.restChars, List.length_append, List.length_cons] at hlevels; omega)
      rw [Json.restChars, List.cons_append, List.cons_append, skipBlanks_cons (by decide)]
      simp only [hmembers]
      rfl

end

end Values

end JsonValue

namespace Json

/-- What is written is read as what it is. -/
theorem read?_render (j : Json) : JsonValue.read? j.render = some j.value := by
  rw [JsonValue.read?, render, String.toList_ofList, String.length_ofList]
  have hread := JsonValue.readValue_chars j (Nat.lt_succ_self _) (.inl rfl)
  rw [List.append_nil] at hread
  rw [hread]
  rfl

/-! ## Characters that are written -/

private theorem printable_escape {c d : Char} (h : d ∈ escape c) : 0x20 ≤ d.toNat := by
  have hdigit : ∀ n < 16, 0x20 ≤ (hexDigit n).toNat := by decide
  unfold escape at h
  split at h
  case h_8 =>
    split at h
    case isTrue hcontrol =>
      have hhigh := hdigit (c.toNat / 16) (by omega)
      have hlow := hdigit (c.toNat % 16) (Nat.mod_lt _ (by decide))
      simp only [List.mem_cons, List.not_mem_nil, or_false] at h
      rcases h with rfl | rfl | rfl | rfl | rfl | rfl
      case _ => decide
      case _ => decide
      case _ => decide
      case _ => decide
      case _ => exact hhigh
      case _ => exact hlow
    case isFalse hplain =>
      rw [List.mem_singleton.mp h]
      omega
  all_goals
    simp only [List.mem_cons, List.not_mem_nil, or_false] at h
    rcases h with rfl | rfl
    case _ => decide
    case _ => decide

private theorem printable_quote {s : String} {c : Char} (h : c ∈ quote s) : 0x20 ≤ c.toNat := by
  simp only [quote, List.mem_append, List.mem_cons, List.mem_flatMap, List.not_mem_nil,
    or_false] at h
  rcases h with (rfl | ⟨d, -, hd⟩) | rfl
  · decide
  · exact printable_escape hd
  · decide

private theorem printable_digits {i : Int} {c : Char} (h : c ∈ digits i) : 0x20 ≤ c.toNat := by
  have hdigit : ∀ n, c ∈ (Nat.repr n).toList → 0x20 ≤ c.toNat := by
    intro n hc
    rw [Nat.toList_repr] at hc
    have hdigit := Nat.isDigit_of_mem_toDigits (by decide) (by decide) hc
    have hzero : '0'.toNat ≤ c.toNat := (Char.isDigit_iff_toNat.mp hdigit).1
    exact Nat.le_trans (by decide) hzero
  cases i with
  | ofNat n => exact hdigit n h
  | negSucc n =>
    rcases List.mem_cons.mp h with rfl | h
    · decide
    · exact hdigit _ h

mutual

private theorem printable_chars : ∀ (j : Json), ∀ c ∈ j.chars, 0x20 ≤ c.toNat
  | .int _, c, hc => by
    rw [chars] at hc
    exact printable_digits hc
  | .str _, c, hc => by
    rw [chars] at hc
    exact printable_quote hc
  | .obj [], c, hc => by
    simp only [chars, List.mem_cons, List.not_mem_nil, or_false] at hc
    rcases hc with rfl | rfl
    · decide
    · decide
  | .obj (member :: members), c, hc => by
    rw [chars] at hc
    rcases List.mem_append.mp hc with hc | hc
    · rcases List.mem_cons.mp hc with rfl | hc
      · decide
      · exact printable_memberChars member c hc
    · exact printable_restChars members c hc

private theorem printable_memberChars : ∀ (member : String × Json), ∀ c ∈ memberChars member,
    0x20 ≤ c.toNat
  | (name, j), c, hc => by
    rw [memberChars] at hc
    rcases List.mem_append.mp hc with hc | hc
    · exact printable_quote hc
    · rcases List.mem_cons.mp hc with rfl | hc
      · decide
      · exact printable_chars j c hc

private theorem printable_restChars : ∀ (members : List (String × Json)),
    ∀ c ∈ restChars members, 0x20 ≤ c.toNat
  | [], c, hc => by
    rw [restChars, List.mem_singleton] at hc
    subst hc
    decide
  | member :: members, c, hc => by
    rw [restChars] at hc
    rcases List.mem_append.mp hc with hc | hc
    · rcases List.mem_cons.mp hc with rfl | hc
      · decide
      · exact printable_memberChars member c hc
    · exact printable_restChars members c hc

end

/-- No control character is written, whatever texts are. -/
theorem printable_render (j : Json) : ∀ c ∈ j.render.toList, 0x20 ≤ c.toNat := by
  rw [render, String.toList_ofList]
  exact printable_chars j

end Json

end Custody.Text
