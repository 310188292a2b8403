import Mathlib.Data.Nat.Digits.Lemmas
import FrontEnd.Proofs.Printing.Constant

/-!
# Digits and the numbers they stand for

Digits stand for a number in the positional system. Without zeros in front they are the digits that
the number is written with, and among digits of one length no two stand for the same number. So the
number that digits around a point stand for tells these digits once the places behind the point are
known.
-/

namespace FrontEnd

/-- The number that digits stand for in the positional system. -/
def positional (digits : List Char) : Nat :=
  Nat.ofDigits 10 (digits.reverse.map fun d => d.toNat - '0'.toNat)

lemma digitsValue_append (ds fs : List Char) :
    digitsValue (ds ++ fs) = 10 ^ fs.length * digitsValue ds + digitsValue fs := by
  rw [digitsValue, Nat.ofDigitChars_append, Nat.ofDigitChars_eq_ofDigitChars_zero]
  rfl

lemma digitsValue_singleton (d : Char) : digitsValue [d] = d.toNat - '0'.toNat := by
  rw [digitsValue, Nat.ofDigitChars_cons, Nat.ofDigitChars_nil, Nat.mul_zero, Nat.zero_add]

lemma digitsValue_concat (ds : List Char) (d : Char) :
    digitsValue (ds ++ [d]) = 10 * digitsValue ds + (d.toNat - '0'.toNat) := by
  rw [digitsValue_append, digitsValue_singleton, List.length_singleton, Nat.pow_one]

lemma digitsValue_eq_positional (ds : List Char) : digitsValue ds = positional ds := by
  induction ds using List.reverseRecOn with
  | nil => rfl
  | append_singleton ds d ih =>
    rw [digitsValue_concat, ih, positional, positional, List.reverse_append, List.map_append,
      List.reverse_singleton, List.map_singleton, List.singleton_append, Nat.ofDigits_cons,
      Nat.add_comm]

lemma digitsValue_lt {fs : List Char} (h : ∀ d ∈ fs, isDigit d = true) :
    digitsValue fs < 10 ^ fs.length := by
  have hlt := Nat.ofDigits_lt_base_pow_length (b := 10)
    (l := fs.reverse.map fun d => d.toNat - '0'.toNat) (by decide) (by
      intro k hk
      obtain ⟨d, hd, rfl⟩ := List.mem_map.mp hk
      have hrange := isDigit_iff.mp (h d (List.mem_reverse.mp hd))
      have hzero : '0'.toNat = 48 := rfl
      omega)
  rw [digitsValue_eq_positional]
  rwa [List.length_map, List.length_reverse] at hlt

lemma toDigits_of_isDigit {d : Char} (h : isDigit d = true) :
    d.toNat - '0'.toNat < 10 ∧ Nat.toDigits 10 (d.toNat - '0'.toNat) = [d] := by
  have hrange := isDigit_iff.mp h
  have hlt : d.toNat - '0'.toNat < 10 := by
    have hzero : '0'.toNat = 48 := rfl
    omega
  have hdigit : (d.toNat - '0'.toNat).digitChar = d := by
    refine Char.toNat_inj.mp ?_
    rw [Nat.toNat_digitChar_of_lt_ten hlt]
    exact Nat.add_sub_cancel' hrange.1
  exact ⟨hlt, by rw [Nat.toDigits_of_lt_base hlt, hdigit]⟩

/-- Digits that are read on behind a number stand behind the digits of that number. -/
lemma toDigits_ofDigitChars {cs : List Char} (h : ∀ d ∈ cs, isDigit d = true) {n : Nat}
    (hn : 0 < n) : Nat.toDigits 10 (Nat.ofDigitChars 10 cs n) = Nat.toDigits 10 n ++ cs := by
  induction cs generalizing n with
  | nil => rw [Nat.ofDigitChars_nil, List.append_nil]
  | cons c cs ih =>
    obtain ⟨hlt, hdigit⟩ := toDigits_of_isDigit (h c (List.mem_cons_self ..))
    rw [Nat.ofDigitChars_cons, ih (fun d hd => h d (List.mem_cons_of_mem c hd)) (by omega),
      ← Nat.toDigits_append_toDigits (by decide) hn hlt, hdigit, List.append_assoc,
      List.singleton_append]

/-- Digits without zeros in front are those of the number that they stand for. -/
lemma IsPositive.toDigits_digitsValue {p : List Char} (h : IsPositive p) :
    Nat.toDigits 10 (digitsValue p) = p := by
  obtain ⟨c, r, rfl, hc, hzero, hr⟩ := h
  obtain ⟨-, hdigit⟩ := toDigits_of_isDigit hc
  have hpos : 0 < c.toNat - '0'.toNat := by
    refine Nat.pos_of_ne_zero fun h0 => ?_
    rw [h0, Nat.toDigits_zero] at hdigit
    exact hzero (List.cons_eq_cons.mp hdigit).1.symm
  rw [digitsValue, Nat.ofDigitChars_cons, Nat.mul_zero, Nat.zero_add,
    toDigits_ofDigitChars hr hpos, hdigit, List.singleton_append]

lemma IsPositive.digitsValue_pos {p : List Char} (h : IsPositive p) : 0 < digitsValue p := by
  refine Nat.pos_of_ne_zero fun h0 => ?_
  have hdigits := h.toDigits_digitsValue
  rw [h0, Nat.toDigits_zero] at hdigits
  exact IsSignPart.append_ne_zero (.inl rfl) h hdigits.symm

section

variable {whole whole' fraction fraction' : List Char}

lemma toDigits_whole (h : whole = ['0'] ∨ IsPositive whole) :
    Nat.toDigits 10 (digitsValue whole) = whole := by
  obtain rfl | h := h
  · rfl
  · exact h.toDigits_digitsValue

/-- Digits of one length that stand for the same number are the same. -/
lemma eq_of_digitsValue (hf : ∀ d ∈ fraction, isDigit d = true)
    (hf' : ∀ d ∈ fraction', isDigit d = true) (hlength : fraction.length = fraction'.length)
    (h : digitsValue fraction = digitsValue fraction') : fraction = fraction' := by
  -- With a one in front no zero is lost.
  have hone : ∀ ds : List Char, (∀ d ∈ ds, isDigit d = true) → IsPositive ('1' :: ds) :=
    fun ds hds => ⟨'1', ds, rfl, rfl, by decide, hds⟩
  have hsame : digitsValue ('1' :: fraction) = digitsValue ('1' :: fraction') := by
    rw [← List.singleton_append, ← List.singleton_append (l := fraction'), digitsValue_append,
      digitsValue_append, hlength, h]
  have htoDigits := (hone fraction hf).toDigits_digitsValue
  rw [hsame, (hone fraction' hf').toDigits_digitsValue] at htoDigits
  exact (List.cons_eq_cons.mp htoDigits).2.symm

/-- The number and the places behind the point tell the digits around the point. -/
lemma eq_of_pointed (hw : whole = ['0'] ∨ IsPositive whole)
    (hw' : whole' = ['0'] ∨ IsPositive whole') (hf : ∀ d ∈ fraction, isDigit d = true)
    (hf' : ∀ d ∈ fraction', isDigit d = true) (hlength : fraction.length = fraction'.length)
    (h : digitsValue (whole ++ fraction) = digitsValue (whole' ++ fraction')) :
    whole = whole' ∧ fraction = fraction' := by
  have hlt := digitsValue_lt hf
  have hlt' := digitsValue_lt hf'
  rw [digitsValue_append, digitsValue_append, ← hlength] at h
  rw [← hlength] at hlt'
  have hpos : 0 < 10 ^ fraction.length := Nat.zero_lt_of_lt hlt
  have hwhole : digitsValue whole = digitsValue whole' := by
    have hdiv := congrArg (· / 10 ^ fraction.length) h
    simpa [Nat.mul_add_div hpos, Nat.div_eq_of_lt hlt, Nat.div_eq_of_lt hlt'] using hdiv
  rw [hwhole] at h
  refine ⟨?_, eq_of_digitsValue hf hf' hlength (Nat.add_left_cancel h)⟩
  rw [← toDigits_whole hw, hwhole, toDigits_whole hw']

end

end FrontEnd
