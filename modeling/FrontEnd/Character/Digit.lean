import FrontEnd.Character

/-!
# Digits of all scripts

Unicode 14 has 66 rows of ten decimal digits. Each row is in order from its zero to its nine, and
the ASCII row is the first.
-/

namespace FrontEnd

/-- The code points of the zeros, in increasing order. -/
def digitZeros : List Nat := [
  0x30, 0x660, 0x6F0, 0x7C0, 0x966, 0x9E6, 0xA66, 0xAE6, 0xB66, 0xBE6, 0xC66, 0xCE6, 0xD66, 0xDE6,
  0xE50, 0xED0, 0xF20, 0x1040, 0x1090, 0x17E0, 0x1810, 0x1946, 0x19D0, 0x1A80, 0x1A90, 0x1B50,
  0x1BB0, 0x1C40, 0x1C50, 0xA620, 0xA8D0, 0xA900, 0xA9D0, 0xA9F0, 0xAA50, 0xABF0, 0xFF10, 0x104A0,
  0x10D30, 0x11066, 0x110F0, 0x11136, 0x111D0, 0x112F0, 0x11450, 0x114D0, 0x11650, 0x116C0,
  0x11730, 0x118E0, 0x11950, 0x11C50, 0x11D50, 0x11DA0, 0x16A60, 0x16AC0, 0x16B50, 0x1D7CE,
  0x1D7D8, 0x1D7E2, 0x1D7EC, 0x1D7F6, 0x1E140, 0x1E2F0, 0x1E950, 0x1FBF0]

/-- The value of a decimal digit. -/
def digitValue? (c : Char) : Option Nat :=
  (digitZeros.find? fun first => first ≤ c.toNat && c.toNat < first + 10).map (c.toNat - ·)

/-- The ASCII digit of the same value; a character that is no digit stays as it is. -/
def asciiDigit (c : Char) : Char :=
  match digitValue? c with
  | some value => Char.ofNat (0x30 + value)
  | none => c

theorem isDigit_iff {c : Char} : isDigit c = true ↔ 0x30 ≤ c.toNat ∧ c.toNat < 0x3A := by
  unfold isDigit
  delta Char.isDigit
  simp only [Bool.and_eq_true, decide_eq_true_eq, ge_iff_le, UInt32.le_iff_toNat_le]
  have : '0'.val.toNat = 48 := rfl
  have : '9'.val.toNat = 57 := rfl
  have : c.toNat = c.val.toNat := rfl
  omega

theorem digitValue?_of_isDigit {c : Char} (h : isDigit c = true) :
    digitValue? c = some (c.toNat - 0x30) := by
  simp [digitValue?, digitZeros, isDigit_iff.mp h]

/-- The other rows stand outside ASCII. -/
theorem digitValue?_of_not_isDigit {c : Char} (h : c.toNat < 128) (hd : isDigit c ≠ true) :
    digitValue? c = none := by
  have far : ∀ first ∈ digitZeros.tail, 128 ≤ first := by decide
  have rows : ∀ first ∈ digitZeros, first = 0x30 ∨ first ∈ digitZeros.tail := by simp [digitZeros]
  rw [Ne, isDigit_iff] at hd
  rw [digitValue?, Option.map_eq_none_iff, List.find?_eq_none]
  intro first hf
  simp only [Bool.and_eq_true, decide_eq_true_eq]
  rcases rows first hf with rfl | hf
  · exact hd
  · have := far first hf
    omega

/-- ASCII text has no other digits than its own. -/
theorem asciiDigit_of_toNat_lt {c : Char} (h : c.toNat < 128) : asciiDigit c = c := by
  by_cases hd : isDigit c = true
  · simp only [asciiDigit, digitValue?_of_isDigit hd]
    rw [Nat.add_sub_cancel' (isDigit_iff.mp hd).1, Char.ofNat_toNat]
  · simp only [asciiDigit, digitValue?_of_not_isDigit h hd]

end FrontEnd
