import Custody.Text.Utf8
import Mathlib.Data.String.Basic

/-!
# The order of texts

Texts are ordered by their characters.  Their bytes are ordered in the same way, since UTF-8 gives
the greater of two characters the greater octet where their forms differ first
(`Text.utf8_lt_utf8`).  What is sorted by name is therefore sorted for a reader of bytes as well.
-/

namespace Custody

namespace Text

/-! ## Octets -/

variable {a b : Nat} {xs ys : Bytes}

/-- The octets that follow do not matter where the first one is less. -/
private theorem octet_lt (hb : b < 256) (h : a < b) :
    UInt8.ofNat a :: xs < UInt8.ofNat b :: ys := by
  rw [List.cons_lt_cons_iff, UInt8.lt_iff_toNat_lt, UInt8.toNat_ofNat', UInt8.toNat_ofNat']
  omega

/-- An octet that is not greater decides, or leaves it to those that follow. -/
private theorem octet_le (hb : b < 256) (hle : a ≤ b) (h : a = b → xs < ys) :
    UInt8.ofNat a :: xs < UInt8.ofNat b :: ys := by
  rcases hle.lt_or_eq with hlt | rfl
  · exact octet_lt hb hlt
  · exact List.cons_lt_cons_iff.mpr (.inr ⟨rfl, h rfl⟩)

/-! ## Characters -/

/-- The form of the lesser character comes first, whatever follows the two forms. -/
private theorem utf8EncodeChar_append_lt {c d : Char} (h : c < d) (xs ys : Bytes) :
    String.utf8EncodeChar c ++ xs < String.utf8EncodeChar d ++ ys := by
  have hd : d.val.toNat < 0x110000 := by
    rcases d.valid with hlow | hhigh
    · exact hlow.trans (by decide)
    · exact hhigh.2
  have hvalue : c.val.toNat < d.val.toNat := h
  unfold String.utf8EncodeChar
  generalize c.val.toNat = v at hvalue
  generalize d.val.toNat = w at hvalue hd
  simp only
  -- the character with fewer octets has the lesser first octet; with equally many octets, the
  -- groups of six bits are compared one after another
  split
  case isTrue =>
    split
    · exact octet_lt (by omega) hvalue
    split
    · exact octet_lt (by omega) (by omega)
    split
    · exact octet_lt (by omega) (by omega)
    · exact octet_lt (by omega) (by omega)
  split
  case isTrue =>
    rw [if_neg (by omega)]
    split
    · exact octet_le (by omega) (by omega) fun _ => octet_lt (by omega) (by omega)
    split
    · exact octet_lt (by omega) (by omega)
    · exact octet_lt (by omega) (by omega)
  split
  case isTrue =>
    rw [if_neg (by omega), if_neg (by omega)]
    split
    · exact octet_le (by omega) (by omega) fun _ => octet_le (by omega) (by omega) fun _ =>
        octet_lt (by omega) (by omega)
    · exact octet_lt (by omega) (by omega)
  case isFalse =>
    rw [if_neg (by omega), if_neg (by omega), if_neg (by omega)]
    exact octet_le (by omega) (by omega) fun _ => octet_le (by omega) (by omega) fun _ =>
      octet_le (by omega) (by omega) fun _ => octet_lt (by omega) (by omega)

private theorem utf8EncodeChar_ne_nil (c : Char) : String.utf8EncodeChar c ≠ [] := by
  unfold String.utf8EncodeChar
  simp only
  split <;> [skip; split <;> [skip; split]]
  all_goals exact List.cons_ne_nil _ _

/-! ## Texts -/

private theorem flatMap_utf8EncodeChar_lt {cs ds : List Char} (h : cs < ds) :
    cs.flatMap String.utf8EncodeChar < ds.flatMap String.utf8EncodeChar := by
  induction cs generalizing ds with
  | nil =>
    cases ds with
    | nil => exact absurd h (lt_irrefl _)
    | cons d ds =>
      obtain ⟨octet, octets, hd⟩ := List.exists_cons_of_ne_nil (utf8EncodeChar_ne_nil d)
      rw [List.flatMap_cons, hd]
      exact List.nil_lt_cons _ _
  | cons c cs ih =>
    cases ds with
    | nil => exact absurd h (List.not_lt_nil _)
    | cons d ds =>
      rw [List.flatMap_cons, List.flatMap_cons]
      rcases List.cons_lt_cons_iff.mp h with hchar | ⟨rfl, hrest⟩
      · exact utf8EncodeChar_append_lt hchar _ _
      · exact List.append_left_lt (ih hrest)

/-- Of two texts the lesser one has the lesser bytes. -/
theorem utf8_lt_utf8 {s t : String} (h : s < t) : utf8 s < utf8 t :=
  flatMap_utf8EncodeChar_lt (String.lt_iff_toList_lt.mp h)

end Text

end Custody
