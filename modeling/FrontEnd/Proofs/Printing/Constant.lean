import FrontEnd.Proofs.Printing.Printer
import FrontEnd.Proofs.Grammar.Completeness

/-!
# Printed constants

The token that a printable constant is printed as is one of the lexer, and it denotes the constant
again.
-/

namespace FrontEnd

lemma isDigit_of_mem_toDigits {n : Nat} {d : Char} (h : d ∈ Nat.toDigits 10 n) :
    isDigit d = true :=
  Nat.isDigit_of_mem_toDigits (by decide) (by decide) h

lemma digitsValue_toDigits (n : Nat) : digitsValue (Nat.toDigits 10 n) = n :=
  Nat.ofDigitChars_ten_toDigits

lemma digitsValue_zeros (k : Nat) (ds : List Char) :
    digitsValue (List.replicate k '0' ++ ds) = digitsValue ds := by
  simp [digitsValue, Nat.ofDigitChars_append]

lemma IsPositive.append {p q : List Char} (hp : IsPositive p) (hq : ∀ d ∈ q, isDigit d = true) :
    IsPositive (p ++ q) := by
  obtain ⟨c, r, rfl, hc, hz, hr⟩ := hp
  refine ⟨c, r ++ q, rfl, hc, hz, fun d hd => ?_⟩
  obtain hd | hd := List.mem_append.mp hd
  · exact hr d hd
  · exact hq d hd

lemma IsPositive.take {p : List Char} (hp : IsPositive p) {n : Nat} (hn : 0 < n) :
    IsPositive (p.take n) := by
  obtain ⟨c, r, rfl, hc, hz, hr⟩ := hp
  obtain ⟨m, rfl⟩ := Nat.exists_eq_add_of_lt hn
  rw [Nat.zero_add, List.take_succ_cons]
  exact ⟨c, r.take m, rfl, hc, hz, fun d hd => hr d (List.mem_of_mem_take hd)⟩

lemma digitChar_of_lt : ∀ n < 10, 0 < n → isDigit n.digitChar = true ∧ n.digitChar ≠ '0' := by
  decide

lemma isPositive_toDigits {n : Nat} (hn : 0 < n) : IsPositive (Nat.toDigits 10 n) := by
  induction n using Nat.strongRecOn with
  | ind n ih =>
    by_cases hlt : n < 10
    · rw [Nat.toDigits_of_lt_base hlt]
      obtain ⟨hdigit, hzero⟩ := digitChar_of_lt n hlt hn
      exact ⟨n.digitChar, [], rfl, hdigit, hzero, by simp⟩
    · have hle : 10 ≤ n := by omega
      have hlast : ∀ d ∈ [(n % 10).digitChar], isDigit d = true := by
        intro d hd
        refine isDigit_of_mem_toDigits (n := n) ?_
        rw [Nat.toDigits_of_base_le (by decide) hle]
        exact List.mem_append_right _ hd
      rw [Nat.toDigits_of_base_le (by decide) hle]
      exact (ih (n / 10) (by omega) (by omega)).append hlast

lemma isSignPart_minus (b : Bool) : IsSignPart (if b then ['-'] else []) := by
  cases b with
  | false => exact .inl rfl
  | true => exact .inr ⟨'-', rfl, rfl⟩

lemma minus_iff (b : Bool) : ((if b then ['-'] else []) == ['-']) = b := by
  cases b <;> rfl

lemma spells_integerText (n : Int) : TokenKind.integer.Spells (integerText n) := by
  by_cases hn : n = 0
  · subst hn
    exact .inl rfl
  · refine .inr ⟨_, _, rfl, ?_, isPositive_toDigits (by omega)⟩
    simpa using isSignPart_minus (decide (n < 0))

lemma integerValue_integerText (n : Int) : integerValue (integerText n) = n := by
  obtain ⟨d, ds, hds⟩ := List.exists_cons_of_ne_nil (Nat.toDigits_ne_nil (n := n.natAbs) (b := 10))
  have hd : isDigit d = true := isDigit_of_mem_toDigits (n := n.natAbs) (by simp [hds])
  have hsign := isSignPart_minus (decide (n < 0))
  have hvalue : digitsValue (d :: ds) = n.natAbs := by rw [← hds, digitsValue_toDigits]
  have hminus := minus_iff (decide (n < 0))
  simp only [decide_eq_true_eq] at hsign hminus
  simp only [integerValue, integerText, hds, splitSign_append hsign hd, hvalue, hminus,
    decide_eq_true_eq]
  split
  · omega
  · omega

lemma usable_integer {n : Int} (h : (Literal.integer n).Printable) :
    (Literal.integer n).token.Usable := by
  have hsign := isSignPart_minus (decide (n < 0))
  simp only [decide_eq_true_eq] at hsign
  constructor
  · simpa [Token.Genuine, Literal.token] using spells_integerText n
  · intro _
    have hcount := hsign.countP_isDigit fun d (hd : d ∈ Nat.toDigits 10 n.natAbs) =>
      isDigit_of_mem_toDigits hd
    simp only [Literal.token, String.toList_ofList, integerText, hcount]
    exact h

/-- Digits with a point have at least one digit in front of it, and if this is a zero, only one. -/
lemma pointed_parts {n k : Nat} (hk : 0 < k) :
    ∃ whole fraction, Magnitude.pointed (Nat.toDigits 10 n) k = whole ++ '.' :: fraction ∧
      (whole = ['0'] ∨ IsPositive whole) ∧ fraction.length = k ∧
      (∀ d ∈ fraction, isDigit d = true) ∧ digitsValue (whole ++ fraction) = n := by
  obtain ⟨padded, hpadded⟩ : ∃ padded, padded =
    List.replicate (k + 1 - (Nat.toDigits 10 n).length) '0' ++ Nat.toDigits 10 n := ⟨_, rfl⟩
  have hlength : padded.length = max (k + 1) (Nat.toDigits 10 n).length := by
    rw [hpadded, List.length_append, List.length_replicate]
    omega
  have hdigit : ∀ d ∈ padded, isDigit d = true := by
    intro d hd
    rw [hpadded] at hd
    obtain hd | hd := List.mem_append.mp hd
    · rw [List.eq_of_mem_replicate hd]
      decide
    · exact isDigit_of_mem_toDigits hd
  refine ⟨padded.take (padded.length - k), padded.drop (padded.length - k), ?_, ?_, ?_,
    fun d hd => hdigit d (List.mem_of_mem_drop hd), ?_⟩
  · simp only [Magnitude.pointed, ← hpadded, if_neg (Nat.ne_of_gt hk)]
  · by_cases hshort : (Nat.toDigits 10 n).length ≤ k
    -- With too few digits, zeros fill up the fraction and leave one in front of the point.
    · obtain ⟨m, hm⟩ : ∃ m, k + 1 - (Nat.toDigits 10 n).length = m + 1 :=
        ⟨k - (Nat.toDigits 10 n).length, by omega⟩
      have hone : padded.length - k = 1 := by omega
      rw [hone, hpadded, hm]
      exact .inl rfl
    · have hpos : 0 < n := by
        by_contra hn
        obtain rfl : n = 0 := by omega
        rw [Nat.toDigits_zero] at hshort
        exact hshort hk
      have hnone : k + 1 - (Nat.toDigits 10 n).length = 0 := by omega
      rw [hnone] at hpadded
      rw [show padded = Nat.toDigits 10 n from hpadded]
      exact .inr ((isPositive_toDigits hpos).take (by omega))
  · rw [List.length_drop]
    omega
  · rw [List.take_append_drop, hpadded, digitsValue_zeros, digitsValue_toDigits]

/-- A decimal with a fraction is written as a decimal numeral that denotes it. -/
lemma plainText_parts {d : Decimal} (h : (Literal.decimal d).Printable) :
    TokenKind.decimal.Spells (plainText d) ∧ decimalValue (plainText d) = d := by
  obtain ⟨n, e, hm, he⟩ := h
  obtain ⟨k, rfl, hk⟩ : ∃ k : Nat, e = -k ∧ 0 < k := ⟨(-e).toNat, by omega, by omega⟩
  obtain ⟨whole, fraction, hpointed, hwhole, hlength, hfraction, hvalue⟩ :=
    pointed_parts (n := n) hk
  have htext : plainText d =
      (if d.negative then ['-'] else []) ++ whole ++ '.' :: fraction := by
    simp [plainText, hm, hpointed]
  have hsign := isSignPart_minus d.negative
  have hne : fraction ≠ [] := by
    rintro rfl
    simp at hlength
    omega
  have hspells : TokenKind.decimal.Spells (plainText d) :=
    ⟨_, whole, fraction, htext, hsign, hwhole, hne, hfraction⟩
  refine ⟨hspells, ?_⟩
  obtain ⟨hwne, hwdigit⟩ := whole_digits hwhole
  rw [htext, decimalValue_decimal hsign hwne hwdigit, minus_iff, hvalue, hlength, ← hm]

/-- The characters that quote literals. -/
def IsQuote (quote : Char) : Prop := quote = '\'' ∨ quote = '"'

lemma isItem_escaped {quote : Char} (hq : IsQuote quote) (c : Char) :
    IsItem quote (escaped quote c) := by
  unfold escaped
  split
  · exact .inr ⟨'\\', rfl, rfl⟩
  split
  · refine .inr ⟨quote, rfl, ?_⟩
    rcases hq with rfl | rfl <;> rfl
  split
  · exact .inr ⟨'n', rfl, rfl⟩
  · next hb hquote hn => exact .inl ⟨c, rfl, hquote, hb, hn⟩

lemma unescape_escape {e c : Char} (h : escape? e = some c) (r : List Char) :
    unescape ('\\' :: e :: r) = c :: unescape r := by
  simp [unescape, h]

lemma unescape_plain {c : Char} (hc : c ≠ '\\') (r : List Char) :
    unescape (c :: r) = c :: unescape r := by
  cases r with
  | nil => rfl
  | cons d r => simp [unescape, hc]

lemma unescape_escaped {quote : Char} (hq : IsQuote quote) (c : Char) (r : List Char) :
    unescape (escaped quote c ++ r) = c :: unescape r := by
  unfold escaped
  split
  · next hc => rw [hc]; exact unescape_escape rfl r
  split
  · next hc =>
    have hquote : escape? quote = some quote := by rcases hq with rfl | rfl <;> rfl
    rw [hc]
    exact unescape_escape hquote r
  split
  · next hc => rw [hc]; exact unescape_escape rfl r
  · next hc _ _ => exact unescape_plain hc r

lemma unescape_all_escaped {quote : Char} (hq : IsQuote quote) (cs : List Char) :
    unescape (cs.map (escaped quote)).flatten = cs := by
  induction cs with
  | nil => rfl
  | cons c cs ih => rw [List.map_cons, List.flatten_cons, unescape_escaped hq, ih]

lemma literalText_quoted {quote : Char} (hq : IsQuote quote) (s : String) :
    literalText (String.ofList (quoted quote s.toList)) = s := by
  have hunquote : unquote (String.ofList (quoted quote s.toList)) =
      (s.toList.map (escaped quote)).flatten := by
    simp [unquote, quoted]
  rw [literalText, hunquote, unescape_all_escaped hq, String.ofList_toList]

/-- A printable constant is printed as a token of the lexer that denotes it. -/
lemma usable_token {v : Literal} (h : v.Printable) : v.token.Usable ∧ Denotes v.token v := by
  cases v with
  | nil => exact ⟨⟨spells_of_token rfl, nofun⟩, .nil rfl⟩
  | boolean b =>
    cases b with
    | true => exact ⟨⟨spells_of_token rfl, nofun⟩, .truth rfl⟩
    | false => exact ⟨⟨spells_of_token rfl, nofun⟩, .falsehood rfl⟩
  | integer n =>
    have hd : Denotes (Literal.integer n).token
        (.integer (integerValue (Literal.integer n).token.text.toList)) := .integer rfl
    simp only [Literal.token, String.toList_ofList, integerValue_integerText] at hd
    exact ⟨usable_integer h, hd⟩
  | decimal d =>
    obtain ⟨hspells, hvalue⟩ := plainText_parts h
    have hd : Denotes (Literal.decimal d).token
        (.decimal (decimalValue (Literal.decimal d).token.text.toList)) := .decimal rfl
    simp only [Literal.token, String.toList_ofList, hvalue] at hd
    exact ⟨⟨by simpa [Token.Genuine, Literal.token] using hspells, nofun⟩, hd⟩
  | character s =>
    have hone : s.toList.length = 1 := by
      rw [String.length_toList]
      exact h
    obtain ⟨c, hc⟩ := List.length_eq_one_iff.mp hone
    have hd : Denotes (Literal.character s).token
        (.character (literalText (Literal.character s).token.text)) := .character rfl
    simp only [Literal.token, literalText_quoted (.inl rfl)] at hd
    refine ⟨⟨⟨escaped '\'' c, ?_, isItem_escaped (.inl rfl) c⟩, nofun⟩, hd⟩
    simp [Literal.token, quoted, hc]
  | string s =>
    have hd : Denotes (Literal.string s).token
        (.string (literalText (Literal.string s).token.text)) := .string rfl
    simp only [Literal.token, literalText_quoted (.inr rfl)] at hd
    refine ⟨⟨⟨s.toList.map (escaped '"'), ?_, ?_⟩, nofun⟩, hd⟩
    · simp [Literal.token, quoted]
    · intro i hi
      obtain ⟨c, -, rfl⟩ := List.mem_map.mp hi
      exact isItem_escaped (.inr rfl) c

end FrontEnd
