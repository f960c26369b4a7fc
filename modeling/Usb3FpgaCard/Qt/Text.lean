import Mathlib.Algebra.Ring.Int.Defs
import Mathlib.Data.List.DropRight
import Mathlib.Data.Nat.Notation

/-!
# Text and numbers: `QString`

A text is the list of its characters.  Numbers are written with `Nat.toDigits` and read with
`toInt`, which accepts blanks around the number, a sign and the prefix `0x`.  A byte that is written
in hexadecimal at the end of a text can be read back from its last four characters, although it is
written without leading zeros: what comes in then is the end of the text before it
(`toInt_right_hex`).
-/

set_option autoImplicit false

namespace Qt

/-- A `QString`. -/
abbrev Text := List Char

/-- `QString::right`: the last `n` characters, or the whole text. -/
def right (s : Text) (n : ℕ) : Text := s.drop (s.length - n)

/-- `QString::trimmed`. -/
def trimmed (s : Text) : Text := (s.dropWhile Char.isWhitespace).rdropWhile Char.isWhitespace

/-- The value of a hexadecimal digit. -/
def hexValue (c : Char) : Option ℕ :=
  if '0' ≤ c ∧ c ≤ '9' then some (c.toNat - '0'.toNat)
  else if 'a' ≤ c ∧ c ≤ 'f' then some (c.toNat - 'a'.toNat + 10)
  else if 'A' ≤ c ∧ c ≤ 'F' then some (c.toNat - 'A'.toNat + 10)
  else none

/-- The value of a non-empty sequence of hexadecimal digits. -/
def ofHexDigits : Text → Option ℕ
  | [] => none
  | s => s.foldlM (fun n c ↦ (hexValue c).map (16 * n + ·)) 0

/-- The sign of a number, and the rest. -/
def splitSign : Text → Bool × Text
  | '-' :: s => (true, s)
  | '+' :: s => (false, s)
  | s => (false, s)

/-- A text without the prefix `0x`. -/
def dropPrefix : Text → Text
  | '0' :: 'x' :: s => s
  | '0' :: 'X' :: s => s
  | s => s

/-- `QString::toInt` for base 16; `none` if `ok` becomes false. -/
def toInt (s : Text) : Option ℤ :=
  let (negative, s) := splitSign (trimmed s)
  (ofHexDigits (dropPrefix s)).bind fun n ↦
    let value : ℤ := if negative then -n else n
    if -2 ^ 31 ≤ value ∧ value < 2 ^ 31 then some value else none

theorem right_append_of_le {s t : Text} {n : ℕ} (h : n ≤ t.length) :
    right (s ++ t) n = right t n := by
  rw [right, right, List.length_append, Nat.add_sub_assoc h, List.drop_append,
    List.drop_eq_nil_of_le (Nat.le_add_right _ _), List.nil_append, Nat.add_sub_cancel_left]

theorem toInt_right_blank_hex :
    ∀ n : Fin 256, 4 ≤ (" 0x".toList ++ Nat.toDigits 16 n).length ∧
      toInt (right (" 0x".toList ++ Nat.toDigits 16 n) 4) = some (n : ℤ) := by
  decide +kernel

/-- **A byte is read back** from the last four characters. -/
theorem toInt_right_hex (s : Text) {n : ℕ} (hn : n < 256) :
    toInt (right (s ++ " 0x".toList ++ Nat.toDigits 16 n) 4) = some (n : ℤ) := by
  obtain ⟨hlength, hread⟩ := toInt_right_blank_hex ⟨n, hn⟩
  rw [List.append_assoc, right_append_of_le hlength]
  exact hread

/-- Different numbers are written differently. -/
theorem eq_of_toDigits_eq {m n : ℕ} (h : Nat.toDigits 10 m = Nat.toDigits 10 n) : m = n := by
  rw [← Nat.ofDigitChars_ten_toDigits (n := m), h, Nat.ofDigitChars_ten_toDigits]

end Qt
