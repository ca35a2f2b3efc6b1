import Custody.Session
import Mathlib.Data.List.Basic

/-!
# Texts that come back

Reading the bytes of a text gives the text back, whatever characters it has (`Text.decode_utf8`),
and no other bytes are read as that text (`Text.decode_eq_ok_iff`): what can be read is exactly the
well-formed UTF-8 (`Text.exists_decode_iff`).  A text can be written down exactly if it holds no
NUL: no other character has an octet 0 (`Text.encode_eq_ok_iff`).

What is written meets the bounds that `Text.lead` puts on the second octet, and what meets them was
written.  This is where overlong forms and surrogates are excluded, and the only place where the
ranges of the characters matter.
-/

namespace Custody

namespace Text

/-! ## One octet -/

/-- Between characters, what an octet does is up to `lead`. -/
private theorem decodeFrom_none_cons (index : Nat) (b : UInt8) (rest : Bytes) :
    decodeFrom index none (b :: rest) =
      match lead index b with
      | none => .error (.malformed index 1)
      | some (.inl c) => (decodeFrom (index + 1) none rest).map (c :: ·)
      | some (.inr p) => decodeFrom (index + 1) (some p) rest :=
  rfl

/-- Within a character, what an octet does is up to the bounds. -/
private theorem decodeFrom_some_cons (index : Nat) (p : Pending) (b : UInt8) (rest : Bytes) :
    decodeFrom index (some p) (b :: rest) =
      if p.low ≤ b ∧ b ≤ p.high then
        if p.owed ≤ 1 then
          (decodeFrom (index + 1) none rest).map
            (Char.ofNat (p.bits * 64 + (b.toNat - 0x80)) :: ·)
        else
          decodeFrom (index + 1)
            (some ⟨p.start, p.owed - 1, 0x80, 0xBF, p.bits * 64 + (b.toNat - 0x80)⟩) rest
      else .error (.malformed p.start (index - p.start)) :=
  rfl

/-! ## First octets -/

section Lead

variable {index : Nat} {b : UInt8}

private theorem lead_of_ascii (h : b.toNat ≤ 0x7F) :
    lead index b = some (.inl (Char.ofNat b.toNat)) :=
  if_pos (UInt8.le_iff_toNat_le.mpr h)

private theorem lead_of_two (hlow : 0xC2 ≤ b.toNat) (hhigh : b.toNat ≤ 0xDF) :
    lead index b = some (.inr ⟨index, 1, 0x80, 0xBF, b.toNat - 0xC0⟩) := by
  unfold lead
  simp only [UInt8.le_iff_toNat_le, UInt8.reduceToNat]
  rw [if_neg (by omega), if_pos ⟨hlow, hhigh⟩]

/-- A character of three octets.  What may follow excludes overlong forms and surrogates. -/
private theorem lead_of_three (index : Nat) (hlow : 0xE0 ≤ b.toNat) (hhigh : b.toNat ≤ 0xEF) :
    ∃ least greatest, lead index b = some (.inr ⟨index, 2, least, greatest, b.toNat - 0xE0⟩) ∧
      ∀ next : UInt8, least ≤ next ∧ next ≤ greatest ↔
        (0x80 ≤ next.toNat ∧ next.toNat ≤ 0xBF) ∧
          (b.toNat = 0xE0 → 0xA0 ≤ next.toNat) ∧ (b.toNat = 0xED → next.toNat ≤ 0x9F) := by
  unfold lead
  simp only [UInt8.le_iff_toNat_le, ← UInt8.toNat_inj, UInt8.reduceToNat]
  rw [if_neg (by omega), if_neg (by omega)]
  by_cases hoverlong : b.toNat = 0xE0
  · rw [if_pos hoverlong]
    exact ⟨0xA0, 0xBF, by rw [hoverlong], fun next => by simp only [UInt8.reduceToNat]; omega⟩
  by_cases hsurrogate : b.toNat = 0xED
  · rw [if_neg hoverlong, if_pos hsurrogate]
    exact ⟨0x80, 0x9F, by rw [hsurrogate], fun next => by simp only [UInt8.reduceToNat]; omega⟩
  · rw [if_neg hoverlong, if_neg hsurrogate, if_pos (by omega)]
    exact ⟨0x80, 0xBF, rfl, fun next => by simp only [UInt8.reduceToNat]; omega⟩

/-- A character of four octets.  What may follow excludes overlong forms and values that are no
character. -/
private theorem lead_of_four (index : Nat) (hlow : 0xF0 ≤ b.toNat) (hhigh : b.toNat ≤ 0xF4) :
    ∃ least greatest, lead index b = some (.inr ⟨index, 3, least, greatest, b.toNat - 0xF0⟩) ∧
      ∀ next : UInt8, least ≤ next ∧ next ≤ greatest ↔
        (0x80 ≤ next.toNat ∧ next.toNat ≤ 0xBF) ∧
          (b.toNat = 0xF0 → 0x90 ≤ next.toNat) ∧ (b.toNat = 0xF4 → next.toNat ≤ 0x8F) := by
  unfold lead
  simp only [UInt8.le_iff_toNat_le, ← UInt8.toNat_inj, UInt8.reduceToNat]
  rw [if_neg (by omega), if_neg (by omega), if_neg (by omega), if_neg (by omega),
    if_neg (by omega)]
  by_cases hoverlong : b.toNat = 0xF0
  · rw [if_pos hoverlong]
    exact ⟨0x90, 0xBF, by rw [hoverlong], fun next => by simp only [UInt8.reduceToNat]; omega⟩
  by_cases hlast : b.toNat = 0xF4
  · rw [if_neg hoverlong, if_neg (by omega), if_pos hlast]
    exact ⟨0x80, 0x8F, by rw [hlast], fun next => by simp only [UInt8.reduceToNat]; omega⟩
  · rw [if_neg hoverlong, if_pos (by omega)]
    exact ⟨0x80, 0xBF, rfl, fun next => by simp only [UInt8.reduceToNat]; omega⟩

/-- No other octet begins a character. -/
private theorem lead_eq_none (index : Nat)
    (h : 0x80 ≤ b.toNat ∧ b.toNat ≤ 0xC1 ∨ 0xF5 ≤ b.toNat) : lead index b = none := by
  unfold lead
  simp only [UInt8.le_iff_toNat_le, ← UInt8.toNat_inj, UInt8.reduceToNat]
  rw [if_neg (by omega), if_neg (by omega), if_neg (by omega), if_neg (by omega),
    if_neg (by omega), if_neg (by omega), if_neg (by omega), if_neg (by omega)]

end Lead

/-! ## One character -/

private theorem toNat_ofNat {n : Nat} (h : n < 256) : (UInt8.ofNat n).toNat = n := by
  rw [UInt8.toNat_ofNat']
  exact Nat.mod_eq_of_lt h

/-- An octet that continues a character adds six bits to it. -/
private theorem decodeFrom_continue {index : Nat} {p : Pending} {six : Nat} {rest : Bytes}
    (hsix : six < 64) (hrange : p.low ≤ UInt8.ofNat (six + 0x80) ∧
      UInt8.ofNat (six + 0x80) ≤ p.high) :
    decodeFrom index (some p) (UInt8.ofNat (six + 0x80) :: rest) =
      if p.owed ≤ 1 then
        (decodeFrom (index + 1) none rest).map (Char.ofNat (p.bits * 64 + six) :: ·)
      else
        decodeFrom (index + 1) (some ⟨p.start, p.owed - 1, 0x80, 0xBF, p.bits * 64 + six⟩)
          rest := by
  rw [decodeFrom_some_cons, if_pos hrange, toNat_ofNat (by omega), Nat.add_sub_cancel]

/-- Beyond the second octet any six bits continue a character. -/
private theorem continues {six : Nat} (hsix : six < 64) :
    (0x80 : UInt8) ≤ UInt8.ofNat (six + 0x80) ∧ UInt8.ofNat (six + 0x80) ≤ 0xBF := by
  simp only [UInt8.le_iff_toNat_le, toNat_ofNat (show six + 0x80 < 256 by omega),
    UInt8.reduceToNat]
  omega

/-- The octets of a character are read as the character, and reading goes on behind them. -/
theorem decodeFrom_utf8EncodeChar (c : Char) (index : Nat) (rest : Bytes) :
    decodeFrom index none (String.utf8EncodeChar c ++ rest) =
      (decodeFrom (index + (String.utf8EncodeChar c).length) none rest).map (c :: ·) := by
  have hvalue : Char.ofNat c.val.toNat = c := Char.ofNat_toNat c
  have hvalid : c.val.toNat < 0xD800 ∨ 0xDFFF < c.val.toNat ∧ c.val.toNat < 0x110000 := c.valid
  unfold String.utf8EncodeChar
  generalize c.val.toNat = v at hvalue hvalid
  -- the cases are those of the number of octets
  simp only
  split
  case isTrue hascii =>
    have hb : (UInt8.ofNat v).toNat = v := toNat_ofNat (by omega)
    rw [List.singleton_append, decodeFrom_none_cons, lead_of_ascii (by omega), hb, hvalue]
    rfl
  split
  case isTrue hascii htwo =>
    have hb : (UInt8.ofNat (v / 64 % 0x20 + 0xC0)).toNat = v / 64 + 0xC0 := by
      rw [toNat_ofNat (by omega)]
      omega
    have hbits : (v / 64 + 0xC0 - 0xC0) * 64 + v % 0x40 = v := by omega
    rw [List.cons_append, decodeFrom_none_cons, lead_of_two (by omega) (by omega), hb]
    simp only [List.cons_append, List.nil_append]
    rw [decodeFrom_continue (by omega) (continues (by omega)), if_pos (by simp)]
    simp only [hbits, hvalue]
    rfl
  split
  case isTrue hascii htwo hthree =>
    have hb : (UInt8.ofNat (v / 4096 % 0x10 + 0xE0)).toNat = v / 4096 + 0xE0 := by
      rw [toNat_ofNat (by omega)]
      omega
    have hnext : (UInt8.ofNat (v / 64 % 0x40 + 0x80)).toNat = v / 64 % 0x40 + 0x80 :=
      toNat_ofNat (by omega)
    have hbits : ((v / 4096 + 0xE0 - 0xE0) * 64 + v / 64 % 0x40) * 64 + v % 0x40 = v := by omega
    obtain ⟨least, greatest, hlead, hrange⟩ := lead_of_three index
      (b := UInt8.ofNat (v / 4096 % 0x10 + 0xE0)) (by omega) (by omega)
    rw [List.cons_append, decodeFrom_none_cons, hlead, hb]
    simp only [List.cons_append, List.nil_append]
    rw [decodeFrom_continue (by omega)
        ((hrange _).mpr (by omega)), if_neg (by simp),
      decodeFrom_continue (by omega) (continues (by omega)), if_pos (by simp)]
    simp only [hbits, hvalue]
    rfl
  case isFalse hascii htwo hthree =>
    have hb : (UInt8.ofNat (v / 262144 % 0x08 + 0xF0)).toNat = v / 262144 + 0xF0 := by
      rw [toNat_ofNat (by omega)]
      omega
    have hnext : (UInt8.ofNat (v / 4096 % 0x40 + 0x80)).toNat = v / 4096 % 0x40 + 0x80 :=
      toNat_ofNat (by omega)
    have hbits : (((v / 262144 + 0xF0 - 0xF0) * 64 + v / 4096 % 0x40) * 64 + v / 64 % 0x40) * 64 +
        v % 0x40 = v := by omega
    obtain ⟨least, greatest, hlead, hrange⟩ := lead_of_four index
      (b := UInt8.ofNat (v / 262144 % 0x08 + 0xF0)) (by omega) (by omega)
    rw [List.cons_append, decodeFrom_none_cons, hlead, hb]
    simp only [List.cons_append, List.nil_append]
    rw [decodeFrom_continue (by omega)
        ((hrange _).mpr (by omega)), if_neg (by simp),
      decodeFrom_continue (by omega) (continues (by omega)), if_neg (by simp),
      decodeFrom_continue (by omega) (continues (by omega)), if_pos (by simp)]
    simp only [hbits, hvalue]
    rfl

/-! ## Reading what was written -/

private theorem decodeFrom_flatMap (cs : List Char) (index : Nat) :
    decodeFrom index none (cs.flatMap String.utf8EncodeChar) = .ok cs := by
  induction cs generalizing index with
  | nil => rfl
  | cons c cs ih =>
    rw [List.flatMap_cons, decodeFrom_utf8EncodeChar, ih]
    rfl

/-- Reading the bytes of a text gives the text back. -/
@[simp] theorem decode_utf8 (s : String) : decode (utf8 s) = .ok s := by
  rw [decode, utf8, decodeFrom_flatMap]
  simp [Except.map]

/-! ## What is read -/

/-- The first octets are those of a character, and reading goes on behind them. -/
private def BeginsWithCharacter (bytes : Bytes) (cs : List Char) : Prop :=
  ∃ c rest index cs', bytes = String.utf8EncodeChar c ++ rest ∧ cs = c :: cs' ∧
    decodeFrom index none rest = .ok cs'

section Characters

variable {index : Nat} {b : UInt8} {bytes : Bytes} {cs : List Char}

/-- After a whole character, reading goes on. -/
private theorem rest_of_map {c : Char}
    (h : (decodeFrom index none bytes).map (c :: ·) = .ok cs) :
    ∃ cs', cs = c :: cs' ∧ decodeFrom index none bytes = .ok cs' := by
  cases hrest : decodeFrom index none bytes with
  | error flaw =>
    rw [hrest] at h
    cases h
  | ok cs' =>
    rw [hrest] at h
    exact ⟨cs', (Except.ok.inj h).symm, rfl⟩

/-- A character that is under way is read on where the next octet meets the bounds. -/
private theorem octet_of_decodeFrom {p : Pending} (h : decodeFrom index (some p) bytes = .ok cs) :
    ∃ b rest, bytes = b :: rest ∧ (p.low ≤ b ∧ b ≤ p.high) := by
  cases bytes with
  | nil => cases h
  | cons b rest =>
    rw [decodeFrom_some_cons] at h
    split at h
    case isTrue hrange => exact ⟨b, rest, rfl, hrange⟩
    case isFalse => cases h

private theorem last_octet {start bits : Nat} {low high : UInt8}
    (h : decodeFrom index (some ⟨start, 1, low, high, bits⟩) bytes = .ok cs) :
    ∃ b rest cs', bytes = b :: rest ∧ (low ≤ b ∧ b ≤ high) ∧
      cs = Char.ofNat (bits * 64 + (b.toNat - 0x80)) :: cs' ∧
      decodeFrom (index + 1) none rest = .ok cs' := by
  obtain ⟨b, rest, rfl, hrange⟩ := octet_of_decodeFrom h
  rw [decodeFrom_some_cons, if_pos hrange] at h
  obtain ⟨cs', rfl, hrest⟩ := rest_of_map h
  exact ⟨b, rest, cs', rfl, hrange, rfl, hrest⟩

private theorem next_octet {start owed bits : Nat} {low high : UInt8}
    (h : decodeFrom index (some ⟨start, owed + 2, low, high, bits⟩) bytes = .ok cs) :
    ∃ b rest, bytes = b :: rest ∧ (low ≤ b ∧ b ≤ high) ∧
      decodeFrom (index + 1)
        (some ⟨start, owed + 1, 0x80, 0xBF, bits * 64 + (b.toNat - 0x80)⟩) rest = .ok cs := by
  obtain ⟨b, rest, rfl, hrange⟩ := octet_of_decodeFrom h
  rw [decodeFrom_some_cons, if_pos hrange] at h
  exact ⟨b, rest, rfl, hrange, h⟩

private theorem toNat_val_ofNat {v : Nat} (h : v < 0xD800 ∨ 0xDFFF < v ∧ v < 0x110000) :
    (Char.ofNat v).val.toNat = v := by
  have hvalid : v.isValidChar := h
  rw [Char.ofNat, dif_pos hvalid]
  rfl

private theorem octet_eq {n : Nat} (h : b.toNat = n) : UInt8.ofNat n = b := by
  rw [← h, UInt8.ofNat_toNat]

private theorem character_of_ascii (hascii : b.toNat ≤ 0x7F)
    (h : decodeFrom index none (b :: bytes) = .ok cs) : BeginsWithCharacter (b :: bytes) cs := by
  rw [decodeFrom_none_cons, lead_of_ascii hascii] at h
  obtain ⟨cs', rfl, hrest⟩ := rest_of_map h
  refine ⟨_, bytes, _, cs', ?_, rfl, hrest⟩
  rw [String.utf8EncodeChar, toNat_val_ofNat (by omega), if_pos hascii, octet_eq rfl]
  rfl

private theorem character_of_two (hlow : 0xC2 ≤ b.toNat) (hhigh : b.toNat ≤ 0xDF)
    (h : decodeFrom index none (b :: bytes) = .ok cs) : BeginsWithCharacter (b :: bytes) cs := by
  rw [decodeFrom_none_cons, lead_of_two hlow hhigh] at h
  obtain ⟨b₁, rest, cs', rfl, hrange, rfl, hrest⟩ := last_octet h
  simp only [UInt8.le_iff_toNat_le, UInt8.reduceToNat] at hrange
  refine ⟨_, rest, _, cs', ?_, rfl, hrest⟩
  rw [String.utf8EncodeChar, toNat_val_ofNat (by omega), if_neg (by omega), if_pos (by omega),
    octet_eq (b := b) (by omega), octet_eq (b := b₁) (by omega)]
  rfl

private theorem character_of_three (hlow : 0xE0 ≤ b.toNat) (hhigh : b.toNat ≤ 0xEF)
    (h : decodeFrom index none (b :: bytes) = .ok cs) : BeginsWithCharacter (b :: bytes) cs := by
  obtain ⟨least, greatest, hlead, hbounds⟩ := lead_of_three index hlow hhigh
  rw [decodeFrom_none_cons, hlead] at h
  obtain ⟨b₁, rest₁, rfl, hrange₁, h₁⟩ := next_octet h
  obtain ⟨b₂, rest, cs', rfl, hrange₂, rfl, hrest⟩ := last_octet h₁
  rw [hbounds] at hrange₁
  simp only [UInt8.le_iff_toNat_le, UInt8.reduceToNat] at hrange₂
  refine ⟨_, rest, _, cs', ?_, rfl, hrest⟩
  rw [String.utf8EncodeChar, toNat_val_ofNat (by omega), if_neg (by omega), if_neg (by omega),
    if_pos (by omega), octet_eq (b := b) (by omega), octet_eq (b := b₁) (by omega),
    octet_eq (b := b₂) (by omega)]
  rfl

private theorem character_of_four (hlow : 0xF0 ≤ b.toNat) (hhigh : b.toNat ≤ 0xF4)
    (h : decodeFrom index none (b :: bytes) = .ok cs) : BeginsWithCharacter (b :: bytes) cs := by
  obtain ⟨least, greatest, hlead, hbounds⟩ := lead_of_four index hlow hhigh
  rw [decodeFrom_none_cons, hlead] at h
  obtain ⟨b₁, rest₁, rfl, hrange₁, h₁⟩ := next_octet h
  obtain ⟨b₂, rest₂, rfl, hrange₂, h₂⟩ := next_octet h₁
  obtain ⟨b₃, rest, cs', rfl, hrange₃, rfl, hrest⟩ := last_octet h₂
  rw [hbounds] at hrange₁
  simp only [UInt8.le_iff_toNat_le, UInt8.reduceToNat] at hrange₂ hrange₃
  refine ⟨_, rest, _, cs', ?_, rfl, hrest⟩
  rw [String.utf8EncodeChar, toNat_val_ofNat (by omega), if_neg (by omega), if_neg (by omega),
    if_neg (by omega), octet_eq (b := b) (by omega), octet_eq (b := b₁) (by omega),
    octet_eq (b := b₂) (by omega), octet_eq (b := b₃) (by omega)]
  rfl

/-- Where anything is read, it is a character to begin with. -/
private theorem character_of_decodeFrom (h : decodeFrom index none (b :: bytes) = .ok cs) :
    BeginsWithCharacter (b :: bytes) cs := by
  by_cases hascii : b.toNat ≤ 0x7F
  · exact character_of_ascii hascii h
  by_cases htwo : 0xC2 ≤ b.toNat ∧ b.toNat ≤ 0xDF
  · exact character_of_two htwo.1 htwo.2 h
  by_cases hthree : 0xE0 ≤ b.toNat ∧ b.toNat ≤ 0xEF
  · exact character_of_three hthree.1 hthree.2 h
  by_cases hfour : 0xF0 ≤ b.toNat ∧ b.toNat ≤ 0xF4
  · exact character_of_four hfour.1 hfour.2 h
  · rw [decodeFrom_none_cons, lead_eq_none index (by omega)] at h
    cases h

private theorem eq_flatMap_of_decodeFrom
    (h : decodeFrom index none bytes = .ok cs) : bytes = cs.flatMap String.utf8EncodeChar := by
  induction cs generalizing index bytes with
  | nil =>
    cases bytes with
    | nil => rfl
    | cons b bytes =>
      obtain ⟨c, rest, index', cs', -, hcs, -⟩ := character_of_decodeFrom h
      cases hcs
  | cons c cs ih =>
    cases bytes with
    | nil => cases h
    | cons b bytes =>
      obtain ⟨c', rest, index', cs', hbytes, hcs, hrest⟩ := character_of_decodeFrom h
      cases hcs
      rw [hbytes, List.flatMap_cons, ih hrest]

end Characters

/-- Bytes are read as a text exactly if they are the bytes of the text. -/
theorem decode_eq_ok_iff {bytes : Bytes} {s : String} : decode bytes = .ok s ↔ bytes = utf8 s := by
  constructor
  · intro h
    rw [decode] at h
    cases hread : decodeFrom 0 none bytes with
    | error flaw =>
      rw [hread] at h
      cases h
    | ok cs =>
      rw [hread] at h
      obtain rfl : String.ofList cs = s := Except.ok.inj h
      rw [utf8, String.toList_ofList]
      exact eq_flatMap_of_decodeFrom hread
  · rintro rfl
    exact decode_utf8 s

/-- Bytes are read exactly if they are well-formed UTF-8. -/
theorem exists_decode_iff {bytes : Bytes} :
    (∃ s, decode bytes = .ok s) ↔ bytes.toByteArray.IsValidUTF8 := by
  constructor
  · rintro ⟨s, h⟩
    obtain rfl := decode_eq_ok_iff.mp h
    exact ⟨s.toList, rfl⟩
  · rintro ⟨cs, hcs⟩
    have hbytes : bytes = utf8 (String.ofList cs) := by
      rw [utf8, String.toList_ofList]
      exact List.toByteArray_inj.mp hcs
    exact ⟨_, decode_eq_ok_iff.mpr hbytes⟩

/-! ## Texts that can be written -/

/-- Only NUL has an octet 0. -/
theorem zero_mem_utf8EncodeChar {c : Char} : 0 ∈ String.utf8EncodeChar c ↔ c = Char.ofNat 0 := by
  constructor
  · intro h
    have hzero : ∀ n < 256, 0 = UInt8.ofNat n → n = 0 := by
      intro n hn hsame
      rw [← toNat_ofNat hn, ← hsame]
      rfl
    have hvalue : Char.ofNat c.val.toNat = c := Char.ofNat_toNat c
    unfold String.utf8EncodeChar at h
    simp only at h
    split at h
    · rw [← hvalue, hzero _ (by omega) (List.mem_singleton.mp h)]
    -- the octets of every other character have their highest bit set
    · have hhigh : ∀ n, 0x80 ≤ n → n < 256 → 0 ≠ UInt8.ofNat n := by
        intro n hlow hn hsame
        have := hzero n hn hsame
        omega
      exfalso
      split at h
      · simp only [List.mem_cons, List.not_mem_nil, or_false] at h
        rcases h with h | h <;> refine hhigh _ ?_ ?_ h <;> omega
      split at h
      · simp only [List.mem_cons, List.not_mem_nil, or_false] at h
        rcases h with h | h | h <;> refine hhigh _ ?_ ?_ h <;> omega
      · simp only [List.mem_cons, List.not_mem_nil, or_false] at h
        rcases h with h | h | h | h <;> refine hhigh _ ?_ ?_ h <;> omega
  · rintro rfl
    decide

/-- A text that can cross between library and host: it holds no NUL. -/
def Crosses (s : String) : Prop := Char.ofNat 0 ∉ s.toList

instance (s : String) : Decidable (Crosses s) :=
  inferInstanceAs (Decidable (Char.ofNat 0 ∉ s.toList))

private theorem findIdx?_utf8_eq_none_iff {s : String} :
    (utf8 s).findIdx? (· == 0) = none ↔ Crosses s := by
  simp only [List.findIdx?_eq_none_iff, utf8, List.mem_flatMap, Crosses, beq_eq_false_iff_ne]
  constructor
  · intro h hnul
    exact h 0 ⟨_, hnul, zero_mem_utf8EncodeChar.mpr rfl⟩ rfl
  · rintro hnul _ ⟨c, hc, hoctet⟩ rfl
    rw [zero_mem_utf8EncodeChar] at hoctet
    exact hnul (hoctet ▸ hc)

/-- A text is written down as its bytes if it can cross, and not at all otherwise. -/
theorem encode_eq_ok_iff {s : String} {bytes : Bytes} :
    encode s = .ok bytes ↔ Crosses s ∧ bytes = utf8 s := by
  unfold encode
  cases hfound : (utf8 s).findIdx? (· == 0) with
  | none => simp [← findIdx?_utf8_eq_none_iff, hfound, eq_comm]
  | some position => simp [← findIdx?_utf8_eq_none_iff, hfound]

/-- The first octet 0 of a text, which is what the text is refused for. -/
def FirstNul (s : String) (position : Nat) : Prop :=
  (utf8 s).findIdx? (· == 0) = some position

instance (s : String) (position : Nat) : Decidable (FirstNul s position) :=
  inferInstanceAs (Decidable ((utf8 s).findIdx? (· == 0) = some position))

theorem exists_firstNul {s : String} (h : ¬ Crosses s) : ∃ position, FirstNul s position := by
  rw [← findIdx?_utf8_eq_none_iff] at h
  exact Option.ne_none_iff_exists'.mp h

theorem FirstNul.encode_eq {s : String} {position : Nat} (h : FirstNul s position) :
    encode s = .error (.nul position) := by
  rw [encode, h]

end Text

open Text

theorem encodeText_eq_ok_iff {s : String} {bytes : Bytes} :
    encodeText s = .ok bytes ↔ Crosses s ∧ bytes = utf8 s := by
  rw [← encode_eq_ok_iff, encodeText]
  cases encode s <;> simp [Except.mapError]

theorem Text.FirstNul.encodeText_eq {s : String} {position : Nat} (h : FirstNul s position) :
    encodeText s = .error (.badText (Flaw.nul position).reason) := by
  rw [encodeText, h.encode_eq]
  rfl

/-- A name is written down if there is none, or if it can cross. -/
private theorem mapM_eq_ok_iff {ε : Type} {write : String → Except ε Bytes}
    (hwrite : ∀ s bytes, write s = .ok bytes ↔ Crosses s ∧ bytes = utf8 s) {name : Option String}
    {bytes : Option Bytes} :
    name.mapM write = .ok bytes ↔ (∀ s ∈ name, Crosses s) ∧ bytes = name.map utf8 := by
  cases name with
  | none => simp [pure, Except.pure, eq_comm]
  | some s =>
    have hmap : (some s).mapM write = (write s).map some := rfl
    rw [hmap]
    cases hs : write s with
    | error cause =>
      have hnot : ¬ Crosses s := by
        intro hcrosses
        rw [(hwrite s _).mpr ⟨hcrosses, rfl⟩] at hs
        cases hs
      simp [Except.map, hnot]
    | ok written =>
      obtain ⟨hcrosses, rfl⟩ := (hwrite s written).mp hs
      simp [Except.map, hcrosses, eq_comm]

theorem mapM_encodeText_eq_ok_iff {name : Option String} {bytes : Option Bytes} :
    name.mapM encodeText = .ok bytes ↔ (∀ s ∈ name, Crosses s) ∧ bytes = name.map utf8 :=
  mapM_eq_ok_iff fun _ _ => encodeText_eq_ok_iff

theorem mapM_encode_eq_ok_iff {name : Option String} {bytes : Option Bytes} :
    name.mapM encode = .ok bytes ↔ (∀ s ∈ name, Crosses s) ∧ bytes = name.map utf8 :=
  mapM_eq_ok_iff fun _ _ => encode_eq_ok_iff

end Custody
