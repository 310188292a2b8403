import FrontEnd.Proofs.Lexical.Alone
import FrontEnd.Proofs.Grammar.Acceptance
import FrontEnd.Proofs.Prefix.Lookahead
import FrontEnd.Proofs.Printing.Digits
import FrontEnd.Proofs.Dump.Source

/-!
# Numbers from source to dump

The number of a token is the one that its text denotes, digit by digit, and the dump shows it in a
way in which it can be read again: as the text itself but for a plus in front, or with an exponent
that moves the point.
-/

namespace FrontEnd

open Grammar

/-- A text without the plus that it starts with. -/
def withoutPlus : List Char → List Char
  | '+' :: cs => cs
  | cs => cs

lemma mem_of_mem_withoutPlus {cs : List Char} {c : Char} (h : c ∈ withoutPlus cs) : c ∈ cs := by
  unfold withoutPlus at h
  split at h
  · exact List.mem_cons_of_mem _ h
  · exact h

/-- What is left of a sign without plus. -/
lemma withoutPlus_append {sign : List Char} (hs : IsSignPart sign) {d : Char}
    (hd : isDigit d = true) (r : List Char) :
    withoutPlus (sign ++ d :: r) = (if sign == ['-'] then ['-'] else []) ++ d :: r := by
  have hsign := isSign_of_isDigit hd
  rcases hs with rfl | ⟨c, rfl, hc⟩
  · have hplus : d ≠ '+' := by
      rintro rfl
      cases hsign
    simp [withoutPlus, hplus]
  · simp only [isSign, Bool.or_eq_true, beq_iff_eq] at hc
    rcases hc with rfl | rfl <;> rfl

lemma withoutPlus_minus (b : Bool) {d : Char} (hd : isDigit d = true) (r : List Char) :
    withoutPlus ((if b then ['-'] else []) ++ d :: r) = (if b then ['-'] else []) ++ d :: r := by
  rw [withoutPlus_append (isSignPart_minus b) hd, minus_iff]

/-- The integer of a sign and digits. -/
def signedValue (sign digits : List Char) : Int :=
  if sign = ['-'] then -(positional digits : Int) else positional digits

lemma integerValue_append {sign ds : List Char} (hs : IsSignPart sign) (hne : ds ≠ [])
    (hd : ∀ d ∈ ds, isDigit d = true) : integerValue (sign ++ ds) = signedValue sign ds := by
  obtain ⟨d, r, rfl⟩ := List.exists_cons_of_ne_nil hne
  simp only [integerValue, splitSign_append hs (hd d (List.mem_cons_self ..)), signedValue,
    digitsValue_eq_positional, beq_iff_eq]

/-- An integer is written as the text that denotes it, but for a plus. -/
lemma integerText_integerValue {cs : List Char} (h : TokenKind.integer.Spells cs) :
    integerText (integerValue cs) = withoutPlus cs := by
  obtain rfl | ⟨sign, p, rfl, hs, hp⟩ := h
  · rfl
  obtain ⟨c, r, rfl, hc, -⟩ := id hp
  have hdigits := hp.toDigits_digitsValue
  have hpos := hp.digitsValue_pos
  rw [withoutPlus_append hs hc]
  simp only [integerValue, splitSign_append hs hc, integerText]
  cases sign == ['-'] with
  | false => simp [hdigits]
  | true => simp [hdigits, hpos]

/-- The decimal of a text is that of the text without a plus. -/
lemma decimalValue_withoutPlus {cs : List Char} (h : TokenKind.decimal.Spells cs) :
    decimalValue (withoutPlus cs) = decimalValue cs := by
  obtain ⟨sign, whole, fraction, rfl, hs, hne, hw, -⟩ := decimal_parts h
  obtain ⟨d, r, rfl⟩ := List.exists_cons_of_ne_nil hne
  have hplus := withoutPlus_append hs (hw d (List.mem_cons_self ..)) (r ++ '.' :: fraction)
  have hparts : withoutPlus (sign ++ (d :: r) ++ '.' :: fraction) =
      (if sign == ['-'] then ['-'] else []) ++ (d :: r) ++ '.' :: fraction := by
    simpa using hplus
  rw [hparts, decimalValue_decimal (isSignPart_minus _) hne hw, decimalValue_decimal hs hne hw,
    minus_iff]

/-- Texts of one decimal are the same but for a plus. -/
lemma withoutPlus_eq_of_decimalValue {cs cs' : List Char} (h : TokenKind.decimal.Spells cs)
    (h' : TokenKind.decimal.Spells cs') (hvalue : decimalValue cs = decimalValue cs') :
    withoutPlus cs = withoutPlus cs' := by
  obtain ⟨sign, whole, fraction, rfl, hs, hwhole, -, hf⟩ := h
  obtain ⟨sign', whole', fraction', rfl, hs', hwhole', -, hf'⟩ := h'
  obtain ⟨hne, hw⟩ := whole_digits hwhole
  obtain ⟨hne', hw'⟩ := whole_digits hwhole'
  rw [decimalValue_decimal hs hne hw, decimalValue_decimal hs' hne' hw', Decimal.mk.injEq,
    Magnitude.finite.injEq] at hvalue
  obtain ⟨hsign, hdigits, hlength⟩ := hvalue
  obtain ⟨rfl, rfl⟩ := eq_of_pointed hwhole hwhole' hf hf' (by omega) hdigits
  obtain ⟨d, r, rfl⟩ := List.exists_cons_of_ne_nil hne
  have hd := hw d (List.mem_cons_self ..)
  rw [List.append_assoc, List.append_assoc, List.cons_append, withoutPlus_append hs hd,
    withoutPlus_append hs' hd, hsign]

lemma withoutPlus_plainText {d : Decimal} (h : (Literal.decimal d).Printable) :
    withoutPlus (plainText d) = plainText d := by
  obtain ⟨n, e, hm, he⟩ := h
  obtain ⟨whole, fraction, hpointed, hwhole, -⟩ :=
    pointed_parts (n := n) (k := (-e).toNat) (by omega)
  obtain ⟨hne, hw⟩ := whole_digits hwhole
  obtain ⟨c, r, rfl⟩ := List.exists_cons_of_ne_nil hne
  have htext : plainText d = (if d.negative then ['-'] else []) ++ c :: (r ++ '.' :: fraction) := by
    simp [plainText, hm, hpointed]
  rw [htext, withoutPlus_minus _ (hw c (List.mem_cons_self ..))]

/-- A decimal in plain notation is written as the text that denotes it, but for a plus. -/
lemma plainText_decimalValue {cs : List Char} (h : TokenKind.decimal.Spells cs)
    (hd : (Literal.decimal (decimalValue cs)).Printable) :
    plainText (decimalValue cs) = withoutPlus cs := by
  obtain ⟨hspells, hvalue⟩ := plainText_parts hd
  rw [← withoutPlus_plainText hd]
  exact withoutPlus_eq_of_decimalValue hspells h hvalue

/-- A point with digits, or nothing. -/
def IsFractionPart (cs : List Char) : Prop :=
  cs = [] ∨ ∃ f, cs = '.' :: f ∧ f ≠ [] ∧ ∀ d ∈ f, isDigit d = true

lemma IsFractionPart.exponent_notMem {cs : List Char} (h : IsFractionPart cs) : 'E' ∉ cs := by
  rintro hmem
  obtain rfl | ⟨f, rfl, -, hf⟩ := h
  · cases hmem
  · obtain hmem | hmem := List.mem_cons.mp hmem
    · cases hmem
    · cases hf _ hmem

/-- An `E` with a sign and digits, or nothing. -/
def IsExponentPart (cs : List Char) : Prop :=
  cs = [] ∨ ∃ s ds, cs = 'E' :: s :: ds ∧ isSign s = true ∧ ds ≠ [] ∧ ∀ d ∈ ds, isDigit d = true

/-- A numeral in plain or in scientific notation. -/
def IsNumeral (cs : List Char) : Prop :=
  ∃ sign whole fraction exponent, cs = sign ++ whole ++ fraction ++ exponent ∧ IsSignPart sign ∧
    whole ≠ [] ∧ (∀ d ∈ whole, isDigit d = true) ∧ IsFractionPart fraction ∧
    IsExponentPart exponent

/-- A decimal with the point moved to the right by some places. -/
def Decimal.moved (d : Decimal) (places : Int) : Decimal :=
  match d with
  | ⟨negative, .finite coefficient exponent⟩ => ⟨negative, .finite coefficient (exponent + places)⟩
  | other => other

/-- The decimal of a numeral: the number behind the `E`, if there is one, moves the point of the
decimal in front of it. -/
def numeralValue (cs : List Char) : Decimal :=
  (decimalValue (cs.takeWhile (· != 'E'))).moved
    (integerValue ((cs.dropWhile (· != 'E')).drop 1))

lemma bne_exponent {cs : List Char} (h : 'E' ∉ cs) : ∀ c ∈ cs, (c != 'E') = true := by
  intro c hc
  rw [bne_iff_ne]
  rintro rfl
  exact h hc

lemma numeralValue_of_notMem {cs : List Char} (h : 'E' ∉ cs) :
    numeralValue cs = (decimalValue cs).moved 0 := by
  rw [numeralValue, List.takeWhile_eq_self_iff.mpr (bne_exponent h),
    List.dropWhile_eq_nil_iff.mpr (bne_exponent h)]
  rfl

lemma numeralValue_append {front tail : List Char} (h : 'E' ∉ front) :
    numeralValue (front ++ 'E' :: tail) = (decimalValue front).moved (integerValue tail) := by
  have htake : (front ++ 'E' :: tail).takeWhile (· != 'E') = front := by
    simp [List.takeWhile_append_of_pos (bne_exponent h)]
  have hdrop : (front ++ 'E' :: tail).dropWhile (· != 'E') = 'E' :: tail := by
    simp [List.dropWhile_append_of_pos (bne_exponent h)]
  rw [numeralValue, htake, hdrop, List.drop_succ_cons, List.drop_zero]

@[simp] lemma Decimal.moved_mk (negative : Bool) (n : Nat) (e places : Int) :
    Decimal.moved ⟨negative, .finite n e⟩ places = ⟨negative, .finite n (e + places)⟩ := rfl

lemma isNumeral_of_spells {cs : List Char} (h : TokenKind.decimal.Spells cs) : IsNumeral cs := by
  obtain ⟨sign, whole, fraction, rfl, hs, hwhole, hne, hf⟩ := h
  obtain ⟨hwne, hw⟩ := whole_digits hwhole
  exact ⟨sign, whole, '.' :: fraction, [], by simp, hs, hwne, hw, .inr ⟨fraction, rfl, hne, hf⟩,
    .inl rfl⟩

/-- The digits behind a point with the point, unless there are none. -/
def fractionPart : List Char → List Char
  | [] => []
  | ds => '.' :: ds

lemma isFractionPart_fractionPart {ds : List Char} (h : ∀ d ∈ ds, isDigit d = true) :
    IsFractionPart (fractionPart ds) := by
  cases ds with
  | nil => exact .inl rfl
  | cons d ds => exact .inr ⟨d :: ds, rfl, by simp, h⟩

lemma decimalValue_fractionPart {sign : List Char} (hs : IsSignPart sign) {d : Char}
    (hd : isDigit d = true) (ds : List Char) :
    decimalValue (sign ++ d :: fractionPart ds) =
      ⟨sign == ['-'], .finite (digitsValue (d :: ds)) (-ds.length)⟩ := by
  have hone : ∀ c ∈ [d], isDigit c = true := by simpa using hd
  cases ds with
  | nil =>
    have hpoint : d ≠ '.' := by
      rintro rfl
      cases hd
    simp [fractionPart, decimalValue, splitSign_append hs hd, hpoint]
  | cons c ds =>
    have h : decimalValue (sign ++ [d] ++ '.' :: c :: ds) = _ :=
      decimalValue_decimal hs (List.cons_ne_nil d []) hone
    rwa [List.append_assoc] at h

lemma scientific_cons (d : Char) (ds : List Char) (power : Int) :
    Magnitude.scientific (d :: ds) power = d :: fractionPart ds ++
      'E' :: (if power < 0 then '-' else '+') :: Nat.toDigits 10 power.natAbs := by
  cases ds <;> rfl

lemma isExponentPart_power (power : Int) :
    IsExponentPart ('E' :: (if power < 0 then '-' else '+') :: Nat.toDigits 10 power.natAbs) := by
  refine .inr ⟨_, _, rfl, ?_, Nat.toDigits_ne_nil, fun d hd => isDigit_of_mem_toDigits hd⟩
  split <;> rfl

lemma integerValue_power (power : Int) :
    integerValue ((if power < 0 then '-' else '+') :: Nat.toDigits 10 power.natAbs) = power := by
  have hs : IsSignPart [if power < 0 then '-' else '+'] := .inr ⟨_, rfl, by split <;> rfl⟩
  have h := integerValue_append hs Nat.toDigits_ne_nil
    fun d (hd : d ∈ Nat.toDigits 10 power.natAbs) => isDigit_of_mem_toDigits hd
  rw [List.singleton_append, signedValue, ← digitsValue_eq_positional, digitsValue_toDigits] at h
  rw [h]
  by_cases hneg : power < 0
  · rw [if_pos hneg, if_pos rfl]
    omega
  · rw [if_neg hneg, if_neg (by decide)]
    omega

/-- A decimal in scientific notation is a numeral that is read back as the decimal. -/
lemma numeral_of_not_isPlain {d : Decimal} {n : Nat} {e : Int} (hm : d.magnitude = .finite n e)
    (h : Magnitude.isPlain n e = false) :
    IsNumeral d.text.toList ∧ numeralValue d.text.toList = d := by
  obtain ⟨c, ds, hds⟩ := List.exists_cons_of_ne_nil (Nat.toDigits_ne_nil (n := n) (b := 10))
  have hdigit : ∀ x ∈ c :: ds, isDigit x = true :=
    fun x hx => isDigit_of_mem_toDigits (n := n) (hds ▸ hx)
  have hc := hdigit c (List.mem_cons_self ..)
  have hfraction := isFractionPart_fractionPart fun x hx => hdigit x (List.mem_cons_of_mem c hx)
  have hsign := isSignPart_minus d.negative
  have htext : d.text.toList = ((if d.negative then ['-'] else []) ++ c :: fractionPart ds) ++
      'E' :: (if Magnitude.adjusted n e < 0 then '-' else '+') ::
        Nat.toDigits 10 (Magnitude.adjusted n e).natAbs := by
    rw [d.toList_text, hm, Magnitude.text_finite, if_neg (ne_true_of_eq_false h), hds,
      scientific_cons, List.append_assoc]
  rw [htext]
  constructor
  · exact ⟨_, [c], fractionPart ds, _, by simp, hsign, by simp, by simpa using hc, hfraction,
      isExponentPart_power (Magnitude.adjusted n e)⟩
  · have hexponent : 'E' ∉ (if d.negative then ['-'] else []) ++ c :: fractionPart ds := by
      intro hmem
      obtain hmem | hmem := List.mem_append.mp hmem
      · cases hsign.all_isSign _ hmem
      obtain hmem | hmem := List.mem_cons.mp hmem
      · subst hmem
        cases hc
      · exact hfraction.exponent_notMem hmem
    have hlength : Magnitude.adjusted n e = e + ds.length := by
      rw [Magnitude.adjusted, hds, List.length_cons]
      omega
    rw [numeralValue_append hexponent, decimalValue_fractionPart hsign hc, minus_iff,
      integerValue_power, ← hds, digitsValue_toDigits, Decimal.moved_mk]
    refine decimal_eq rfl hm rfl rfl ?_
    omega

/-- Every decimal with a fraction is shown as a numeral that is read back as the decimal. -/
lemma numeral_text {d : Decimal} (hd : (Literal.decimal d).HasFraction) :
    IsNumeral d.text.toList ∧ numeralValue d.text.toList = d := by
  obtain ⟨n, e, hm, he⟩ := hd
  cases hp : Magnitude.isPlain n e with
  | false => exact numeral_of_not_isPlain hm hp
  | true =>
    obtain ⟨hexponent, -, hvalue⟩ := parts_of_isPlain hm he hp
    refine ⟨?_, ?_⟩
    · rw [toList_text_of_isPlain hm hp]
      exact isNumeral_of_spells (plainText_parts (d := d) ⟨n, e, hm, he⟩).1
    · rw [numeralValue_of_notMem hexponent, hvalue]
      obtain ⟨negative, magnitude⟩ := d
      cases hm
      rw [Decimal.moved_mk, Int.add_zero]

/-- A decimal is shown as the text that denotes it, but for a plus, just if its first digit stands
at most six places behind the point. -/
lemma text_eq_withoutPlus_iff {cs : List Char} (h : TokenKind.decimal.Spells cs) {n : Nat} {e : Int}
    (hm : (decimalValue cs).magnitude = .finite n e) (he : e ≤ -1) :
    (decimalValue cs).text.toList = withoutPlus cs ↔ -6 ≤ Magnitude.adjusted n e := by
  have hplain : Magnitude.isPlain n e = true ↔ -6 ≤ Magnitude.adjusted n e := by
    have hzero : e ≤ 0 := by omega
    simp [Magnitude.isPlain, hzero]
  rw [← hplain]
  constructor
  · intro htext
    by_contra hp
    have hmem := (exponent_mem_iff hm he).mpr (by simpa using hp)
    obtain ⟨sign, whole, fraction, rfl, hs, -, hw, hf⟩ := decimal_parts h
    rw [htext] at hmem
    obtain hc | hc | hc := decimal_character hs hw hf 'E' (mem_of_mem_withoutPlus hmem) <;> cases hc
  · intro hp
    rw [toList_text_of_isPlain hm hp, plainText_decimalValue h ⟨n, e, hm, he⟩]

/-- What it means for a token to be read as a constant: the token is that operand wherever an
operand is expected, and its text on its own is that expression. -/
structure Token.ReadAs (t : Token) (v : Literal) : Prop where
  operand : ∀ (expression : Rule Expression) (rest : List Token),
    Grammar.operand expression (t :: rest) = .ok (.literal v) rest
  alone : parseAs .expression t.text = .ok (.expression (.literal v))
  shown : (Construct.expression (.literal v)).tree.dump.text = "Literal(" ++ v.text ++ ")\n"

lemma expression_of_denotes {t : Token} (ht : t.Usable) {v : Literal} (h : Denotes t v) :
    Grammar.expression maxNesting [t] = .ok (.literal v) [] := by
  have hsound : Sound [t] := by simpa [Sound] using ht
  have hoperand : Reserved (.level 4) [t] (.literal v) := .secondary (.primary (.constant h))
  have hderives : Reserved .expression [t] (.literal v) :=
    .expression (derives_lower (Nat.zero_le 4) (Nat.le_refl 4) hoperand)
  have hnesting : (Expression.literal v).nesting ≤ maxNesting := by
    simp [Expression.nesting, Expression.inner, maxNesting]
  exact recognizes_of_derives hderives hsound maxNesting hnesting [] (by simp [Stops])

lemma Token.Usable.readAs {t : Token} (ht : t.Usable) {v : Literal} (h : Denotes t v) :
    t.ReadAs v := by
  have hconstant := constant?_of_denotes ht.1 ht.2 h
  refine ⟨fun expression rest => operand_of_constant hconstant rest, ?_, ?_⟩
  · have hu : Token.Usable ⟨t.kind, t.text, 0⟩ := ht
    have hlook : Token.look ⟨t.kind, t.text, 0⟩ = t.look := rfl
    have hdenotes := denotes_of_constant? hu.1 ((constant?_congr hlook).trans hconstant)
    have hexpression := expression_of_denotes hu hdenotes
    have hrule : Grammar.construct maxNesting .expression [⟨t.kind, t.text, 0⟩] =
        .ok (.expression (.literal v)) [] := by
      rw [Grammar.construct, Rule.map_apply, hexpression]
    rw [parseAs, readSource_of_tokenize _ (tokenize_eq_single_iff.mpr ht.1), hrule]
  · have hshort := not_overlong_of_denotes ht h
    simp [Construct.tree, Expression.tree, Tree.dump, Tree.outline_literal hshort, Outline.listing,
      Outline.listingAll, Listing.append, Listing.text, Row.text, String.append_assoc]

lemma Token.Genuine.readAs_decimal {t : Token} (hg : t.Genuine) (hk : t.kind = .decimal) :
    t.ReadAs (.decimal (decimalValue t.text.toList)) :=
  Token.Usable.readAs ⟨hg, by simp [Token.Readable, hk]⟩ (.decimal hk)

/-- An integer token is read as the number of its sign and its digits, and shown as its text without
a plus. -/
structure Token.KeepsInteger (t : Token) (sign digits : List Char) : Prop where
  text : t.text.toList = sign ++ digits
  isSignPart : IsSignPart sign
  allDigits : digits ≠ [] ∧ ∀ d ∈ digits, isDigit d = true
  read : t.ReadAs (.integer (signedValue sign digits))
  unchanged : (Literal.integer (signedValue sign digits)).text.toList = withoutPlus t.text.toList

/-- The decimal of a sign and digits around a point. -/
def signedDecimal (sign whole fraction : List Char) : Decimal :=
  ⟨sign == ['-'], .finite (positional (whole ++ fraction)) (-fraction.length)⟩

/-- A decimal token is read as the decimal of its sign and its digits. It is shown as a numeral that
is read back as just that decimal, and this is its text without a plus unless its first digit stands
too far behind the point. -/
structure Token.KeepsDecimal (t : Token) (sign whole fraction : List Char) : Prop where
  text : t.text.toList = sign ++ whole ++ '.' :: fraction
  isSignPart : IsSignPart sign
  allDigits : ∀ d ∈ whole ++ fraction, isDigit d = true
  read : t.ReadAs (.decimal (signedDecimal sign whole fraction))
  numeral : IsNumeral (signedDecimal sign whole fraction).text.toList
  restored : numeralValue (signedDecimal sign whole fraction).text.toList =
    signedDecimal sign whole fraction
  unchanged : (signedDecimal sign whole fraction).text.toList = withoutPlus t.text.toList ↔
    -6 ≤ -(fraction.length : Int) + (Nat.toDigits 10 (positional (whole ++ fraction))).length - 1

lemma Token.Genuine.keepsInteger {t : Token} (hg : t.Genuine) (hk : t.kind = .integer)
    (hm : t.text.toList.countP isDigit ≤ maxIntegerDigits) :
    ∃ sign digits, t.KeepsInteger sign digits := by
  have hspells : TokenKind.integer.Spells t.text.toList := hk ▸ hg
  obtain ⟨sign, ds, ht, hs, hne, hd⟩ := integer_parts hspells
  have hvalue : integerValue t.text.toList = signedValue sign ds := by
    rw [ht, integerValue_append hs hne hd]
  have hread := Token.Usable.readAs ⟨hg, fun _ => hm⟩ (.integer hk)
  refine ⟨sign, ds, ht, hs, ⟨hne, hd⟩, hvalue ▸ hread, ?_⟩
  rw [← integerText_integerValue hspells, ← hvalue]
  exact toList_toString_int _

lemma Token.Genuine.keepsDecimal {t : Token} (hg : t.Genuine) (hk : t.kind = .decimal) :
    ∃ sign whole fraction, t.KeepsDecimal sign whole fraction := by
  have hspells : TokenKind.decimal.Spells t.text.toList := hk ▸ hg
  have hread := hg.readAs_decimal hk
  have hfraction : (Literal.decimal (decimalValue t.text.toList)).HasFraction :=
    hasFraction_of_denotes hg (.decimal hk)
  obtain ⟨sign, whole, fraction, ht, hs, hwhole, hne, hf⟩ := id hspells
  obtain ⟨hwne, hw⟩ := whole_digits hwhole
  have hvalue : decimalValue t.text.toList = signedDecimal sign whole fraction := by
    rw [ht, decimalValue_decimal hs hwne hw, digitsValue_eq_positional, signedDecimal]
  have hpos := List.length_pos_iff.mpr hne
  have hiff := text_eq_withoutPlus_iff hspells (congrArg Decimal.magnitude hvalue) (by omega)
  obtain ⟨hnumeral, hrestored⟩ := numeral_text hfraction
  rw [hvalue] at hread hiff hnumeral hrestored
  exact ⟨sign, whole, fraction, ht, hs, List.forall_mem_append.mpr ⟨hw, hf⟩, hread, hnumeral,
    hrestored, hiff⟩

/-- A token is read as one constant. -/
lemma Token.ReadAs.unique {t : Token} {v w : Literal} (hv : t.ReadAs v) (hw : t.ReadAs w) :
    v = w := by
  have h := hv.alone.symm.trans hw.alone
  cases h
  rfl

/-- Decimal tokens are shown as the same text just if their texts are the same but for a plus. -/
lemma decimal_text_eq_iff {t u : Token} (ht : t.Genuine) (hu : u.Genuine) (htk : t.kind = .decimal)
    (huk : u.kind = .decimal) {d e : Decimal} (hd : t.ReadAs (.decimal d))
    (he : u.ReadAs (.decimal e)) :
    d.text = e.text ↔ withoutPlus t.text.toList = withoutPlus u.text.toList := by
  have hts : TokenKind.decimal.Spells t.text.toList := htk ▸ ht
  have hus : TokenKind.decimal.Spells u.text.toList := huk ▸ hu
  have htf := hasFraction_of_denotes ht (.decimal htk)
  have huf := hasFraction_of_denotes hu (.decimal huk)
  obtain rfl : d = decimalValue t.text.toList :=
    Literal.decimal.inj (hd.unique (ht.readAs_decimal htk))
  obtain rfl : e = decimalValue u.text.toList :=
    Literal.decimal.inj (he.unique (hu.readAs_decimal huk))
  constructor
  · intro h
    exact withoutPlus_eq_of_decimalValue hts hus (decimal_text_injective htf huf h)
  · intro h
    rw [← decimalValue_withoutPlus hts, h, decimalValue_withoutPlus hus]

/-- Numbers keep their value from the source to the dump. An integer that is not too long and any
decimal is read as the number that its text denotes, the printed form of which is the text without
a plus or, for small decimals, a numeral that is read back as the same sign, coefficient and
exponent. Two decimals have one printed form just if their texts are the same but for a plus. -/
theorem numbers_keep_their_values :
    (∀ t : Token, t.FromSource → t.kind = .integer →
      t.text.toList.countP isDigit ≤ maxIntegerDigits →
        ∃ sign digits, t.KeepsInteger sign digits) ∧
    (∀ t : Token, t.FromSource → t.kind = .decimal →
      ∃ sign whole fraction, t.KeepsDecimal sign whole fraction) ∧
    ∀ t u : Token, t.FromSource → u.FromSource → t.kind = .decimal → u.kind = .decimal →
      ∀ d e, t.ReadAs (.decimal d) → u.ReadAs (.decimal e) →
        (d.text = e.text ↔ withoutPlus t.text.toList = withoutPlus u.text.toList) := by
  refine ⟨?integer, ?decimal, ?shown⟩
  case integer =>
    intro t ht hk hm
    exact ht.genuine.keepsInteger hk hm
  case decimal =>
    intro t ht hk
    exact ht.genuine.keepsDecimal hk
  case shown =>
    intro t u ht hu htk huk d e hd he
    exact decimal_text_eq_iff ht.genuine hu.genuine htk huk hd he

/-- A plus is not shown, and the zeros of a decimal are. A small decimal gets an exponent. -/
theorem small_decimal_shown_with_exponent :
    (∃ sign digits, Token.KeepsInteger ⟨.integer, "+42", 0⟩ sign digits ∧
      (Literal.integer (signedValue sign digits)).text = "42") ∧
    (∃ sign whole fraction, Token.KeepsDecimal ⟨.decimal, "-0.00000010", 0⟩ sign whole fraction ∧
      (signedDecimal sign whole fraction).text = "-1.0E-7") ∧
    (decimalValue "+1.50".toList).text = (decimalValue "1.50".toList).text ∧
    (decimalValue "1.50".toList).text ≠ (decimalValue "1.5".toList).text := by
  obtain ⟨hintegers, hdecimals, hshown⟩ := numbers_keep_their_values
  have source {t : Token} (h : tokenize t.text = .ok [t]) : t.FromSource :=
    ⟨_, _, h, List.mem_singleton_self t⟩
  have hplus : Token.FromSource ⟨.decimal, "+1.50", 0⟩ := source (by decide +kernel)
  have hlong : Token.FromSource ⟨.decimal, "1.50", 0⟩ := source (by decide +kernel)
  have hshort : Token.FromSource ⟨.decimal, "1.5", 0⟩ := source (by decide +kernel)
  have hsmall : Token.FromSource ⟨.decimal, "-0.00000010", 0⟩ := source (by decide +kernel)
  refine ⟨?integer, ?small, ?plus, ?places⟩
  case integer =>
    obtain ⟨sign, digits, h⟩ := hintegers ⟨.integer, "+42", 0⟩ (source (by decide +kernel)) rfl
      (by decide)
    exact ⟨sign, digits, h, String.toList_inj.mp (h.unchanged.trans (by decide))⟩
  case small =>
    obtain ⟨sign, whole, fraction, h⟩ := hdecimals _ hsmall rfl
    have hvalue := Literal.decimal.inj (h.read.unique (hsmall.genuine.readAs_decimal rfl))
    exact ⟨sign, whole, fraction, h, hvalue ▸ by decide⟩
  case plus =>
    exact (hshown _ _ hplus hlong rfl rfl _ _ (hplus.genuine.readAs_decimal rfl)
      (hlong.genuine.readAs_decimal rfl)).mpr (by decide)
  case places =>
    have hiff := hshown _ _ hlong hshort rfl rfl _ _ (hlong.genuine.readAs_decimal rfl)
      (hshort.genuine.readAs_decimal rfl)
    exact mt hiff.mp (by decide)

/-- A zero with many places keeps them and its sign. -/
example : (decimalValue "-0.0000000".toList).text = "-0E-7" ∧
    numeralValue "-0E-7".toList = decimalValue "-0.0000000".toList := by decide

end FrontEnd
