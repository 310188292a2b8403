import FrontEnd.Dump.Tree
import FrontEnd.Proofs.Code
import FrontEnd.Proofs.Printing.Constant

/-!
# Quoted texts are unambiguous

A quoted text is on one line and belongs to one text only. The first quote tells which quote is in
use, and the first two characters of each part behind it tell how long the part is and how it is
read.
-/

namespace FrontEnd.Quoted

def hexDigitValue (d : Char) : Nat :=
  if isDigit d then d.toNat - '0'.toNat else d.toNat - 'a'.toNat + 10

/-- The number that lower-case hexadecimal digits denote. -/
def hexValue (digits : List Char) : Nat :=
  digits.foldl (fun value d => 16 * value + hexDigitValue d) 0

lemma hexDigitValue_digitChar : ∀ n < 16, hexDigitValue n.digitChar = n := by
  decide

lemma hexValue_concat (digits : List Char) (d : Char) :
    hexValue (digits ++ [d]) = 16 * hexValue digits + hexDigitValue d := by
  rw [hexValue, List.foldl_append]
  rfl

lemma hexValue_toDigits (n : Nat) : hexValue (Nat.toDigits 16 n) = n := by
  induction n using Nat.strongRecOn with
  | ind n ih =>
    by_cases hn : n < 16
    · rw [Nat.toDigits_of_lt_base hn]
      have hvalue := hexValue_concat [] n.digitChar
      rw [hexDigitValue_digitChar n hn] at hvalue
      exact hvalue.trans (Nat.zero_add n)
    · rw [Nat.toDigits_of_base_le (by decide) (by omega), hexValue_concat, ih (n / 16) (by omega),
        hexDigitValue_digitChar (n % 16) (by omega)]
      omega

lemma hexValue_zeros (k : Nat) (digits : List Char) :
    hexValue (List.replicate k '0' ++ digits) = hexValue digits := by
  induction k with
  | zero => rfl
  | succ k ih => exact ih

lemma hexValue_hex (width n : Nat) : hexValue (hex width n) = n := by
  rw [hex, hexValue_zeros, hexValue_toDigits]

lemma length_hex {width n : Nat} (hw : 0 < width) (hn : n < Nat.pow 16 width) :
    (hex width n).length = width := by
  have hle := (Nat.length_toDigits_le_iff (by decide) hw).mpr hn
  rw [hex, List.length_append, List.length_replicate]
  omega

lemma newline_notMem_toDigits (n : Nat) : '\n' ∉ Nat.toDigits 16 n := by
  induction n using Nat.strongRecOn with
  | ind n ih =>
    by_cases hn : n < 16
    · rw [Nat.toDigits_of_lt_base hn]
      simp
    · rw [Nat.toDigits_of_base_le (by decide) (by omega)]
      simp [ih (n / 16) (by omega)]

/-- The number of hexadecimal digits behind a letter that follows a backslash. -/
def digits? : Char → Option Nat
  | 'x' => some 2
  | 'u' => some 4
  | 'U' => some 8
  | _ => none

lemma digits?_pos {letter : Char} {width : Nat} (h : digits? letter = some width) : 0 < width := by
  unfold digits? at h
  split at h <;> cases h <;> decide

/-- A letter that escapes a character has no digits behind it. -/
lemma digits?_of_escape? {letter c : Char} (h : escape? letter = some c) :
    digits? letter = none ∧ letter ≠ '\n' := by
  unfold escape? at h
  split at h <;> cases h <;> exact ⟨rfl, by decide⟩

/-- A character between quotes is written as itself, by a letter or by its number. -/
lemma character_cases {quote : Char} (hq : IsQuote quote) (c : Char) :
    (c ≠ '\\' ∧ c ≠ '\n' ∧ character quote c = [c]) ∨
    (∃ letter, escape? letter = some c ∧ character quote c = ['\\', letter]) ∨
    ∃ letter width, digits? letter = some width ∧ c.toNat < Nat.pow 16 width ∧
      character quote c = '\\' :: letter :: hex width c.toNat := by
  by_cases hquote : c = quote ∨ c = '\\'
  · refine .inr (.inl ⟨c, ?_, by rw [character, if_pos hquote]⟩)
    obtain rfl | rfl := hquote
    · obtain rfl | rfl := hq <;> rfl
    · rfl
  unfold character
  rw [if_neg hquote]
  split
  · next h => exact .inr (.inl ⟨'n', by rw [h]; rfl, rfl⟩)
  next hn =>
  split
  · next h => exact .inr (.inl ⟨'r', by rw [h]; rfl, rfl⟩)
  split
  · next h => exact .inr (.inl ⟨'t', by rw [h]; rfl, rfl⟩)
  split
  · exact .inl ⟨fun h => hquote (.inr h), hn, rfl⟩
  split
  · next h => exact .inr (.inr ⟨'x', 2, rfl, h, rfl⟩)
  split
  · next h => exact .inr (.inr ⟨'u', 4, rfl, h, rfl⟩)
  · have hlt : c.toNat < 0x110000 := by
      have hvalid := c.valid
      simp only [UInt32.isValidChar, Nat.isValidChar] at hvalid
      change c.val.toNat < 0x110000
      omega
    exact .inr (.inr ⟨'U', 8, rfl, Nat.lt_trans hlt (by decide), rfl⟩)

/-- The length of the written character that a text starts with. -/
def width : List Char → Nat
  | '\\' :: letter :: _ => 2 + (digits? letter).getD 0
  | _ => 1

/-- The character that is written so. -/
def read? : List Char → Option Char
  | ['\\', letter] => escape? letter
  | '\\' :: _ :: digits => some (Char.ofNat (hexValue digits))
  | c :: _ => some c
  | [] => none

lemma read?_character {quote : Char} (hq : IsQuote quote) (c : Char) :
    read? (character quote c) = some c := by
  obtain ⟨-, -, hc⟩ | ⟨letter, hletter, hc⟩ | ⟨letter, width, hw, hlt, hc⟩ := character_cases hq c
  · simp [hc, read?]
  · rw [hc]
    exact hletter
  · have hlength := length_hex (digits?_pos hw) hlt
    obtain ⟨d, ds, hds⟩ := List.exists_cons_of_length_pos (hlength ▸ digits?_pos hw)
    have hvalue := hexValue_hex width c.toNat
    rw [hds] at hvalue
    simp [hc, hds, read?, hvalue]

/-- The written characters are told apart in any text of them. -/
lemma isCode_character {quote : Char} (hq : IsQuote quote) :
    IsCode (fun _ => True) (character quote) width where
  ne_nil c _ := by
    obtain ⟨-, -, hc⟩ | ⟨letter, -, hc⟩ | ⟨letter, width, -, -, hc⟩ := character_cases hq c
    all_goals
      rw [hc]
      exact List.cons_ne_nil _ _
  width_append c _ rest := by
    obtain ⟨hne, -, hc⟩ | ⟨letter, hletter, hc⟩ | ⟨letter, w, hw, hlt, hc⟩ := character_cases hq c
    · simp [hc, width, hne]
    · simp [hc, width, (digits?_of_escape? hletter).1]
    · simp [hc, width, hw, length_hex (digits?_pos hw) hlt]
      omega
  injective b c _ _ h := by
    have hread := read?_character hq b
    rw [h, read?_character hq c] at hread
    exact (Option.some_injective _ hread).symm

lemma newline_notMem_character {quote : Char} (hq : IsQuote quote) (c : Char) :
    '\n' ∉ character quote c := by
  obtain ⟨-, hne, hc⟩ | ⟨letter, hletter, hc⟩ | ⟨letter, width, hw, -, hc⟩ := character_cases hq c
  · rw [hc]
    simpa using hne.symm
  · rw [hc]
    simpa using (digits?_of_escape? hletter).2.symm
  · have hletter : letter ≠ '\n' := by
      rintro rfl
      cases hw
    rw [hc, hex]
    simp [hletter.symm, newline_notMem_toDigits]

lemma isQuote_quoteFor (cs : List Char) : IsQuote (quoteFor cs) := by
  unfold quoteFor
  split
  · exact .inr rfl
  · exact .inl rfl

lemma toList_text (s : String) : (text s).toList = quoteFor s.toList ::
    (s.toList.flatMap (character (quoteFor s.toList)) ++ [quoteFor s.toList]) := by
  rw [text, String.toList_ofList]

lemma newline_notMem_text (s : String) : '\n' ∉ (text s).toList := by
  have hq := isQuote_quoteFor s.toList
  have hne : '\n' ≠ quoteFor s.toList := by
    obtain h | h := hq <;> rw [h] <;> decide
  have hbody : '\n' ∉ s.toList.flatMap (character (quoteFor s.toList)) := by
    intro h
    obtain ⟨c, -, hc⟩ := List.mem_flatMap.mp h
    exact newline_notMem_character hq c hc
  rw [toList_text]
  simp [hne, hbody]

/-- A quoted text belongs to one text only. -/
theorem text_injective {s t : String} (h : text s = text t) : s = t := by
  have hlist := congrArg String.toList h
  rw [toList_text, toList_text] at hlist
  obtain ⟨hquote, htail⟩ := List.cons_eq_cons.mp hlist
  rw [hquote] at htail
  have hbody := List.append_cancel_right htail
  exact String.toList_inj.mp ((isCode_character (isQuote_quoteFor t.toList)).flatMap_injective
    (fun _ _ => trivial) (fun _ _ => trivial) hbody)

end FrontEnd.Quoted
