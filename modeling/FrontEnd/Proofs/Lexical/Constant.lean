import FrontEnd.Grammar.Constant
import FrontEnd.Proofs.Lexical.Spaced

/-!
# The constants that tokens denote

For tokens that the lexer makes, the constant of a token is what its text says: a keyword, the
number with that sign and those digits, or the characters between the quotes. Reading it fails for
integers with too many digits only.
-/

namespace FrontEnd

/-- The integer of a sign and digits. -/
def integerValue (cs : List Char) : Int :=
  let (negative, digits) := splitSign cs
  if negative then -(digitsValue digits : Int) else digitsValue digits

/-- The decimal of a sign, digits, a point and the digits of a fraction. -/
def decimalValue (cs : List Char) : Decimal :=
  let (negative, body) := splitSign cs
  let whole := body.takeWhile (· != '.')
  let fraction := (body.dropWhile (· != '.')).drop 1
  ⟨negative, .finite (digitsValue (whole ++ fraction)) (-fraction.length)⟩

/-- The literal of a token that is a constant by its text or by its kind. -/
inductive Denotes (t : Token) : Literal → Prop
  | nil (h : t.text = "NIL") : Denotes t .nil
  | truth (h : t.text = "TRUE") : Denotes t (.boolean true)
  | falsehood (h : t.text = "FALSE") : Denotes t (.boolean false)
  | integer (h : t.kind = .integer) : Denotes t (.integer (integerValue t.text.toList))
  | decimal (h : t.kind = .decimal) : Denotes t (.decimal (decimalValue t.text.toList))
  | character (h : t.kind = .character) : Denotes t (.character (literalText t.text))
  | string (h : t.kind = .string) : Denotes t (.string (literalText t.text))

/-- A token whose number, if it is an integer, has no more digits than are read. -/
def Token.Readable (t : Token) : Prop :=
  t.kind = .integer → t.text.toList.countP isDigit ≤ maxIntegerDigits

/-- A token of the lexer whose constant, if it is one, can be read. -/
def Token.Usable (t : Token) : Prop := t.Genuine ∧ t.Readable

/-- A text has one kind at most. -/
lemma Token.Genuine.kind_eq {t : Token} (h : t.Genuine) {kind : TokenKind}
    (hk : kind.Spells t.text.toList) : t.kind = kind := by
  have h1 := Scan.token_before_blank h (w := []) (by simp)
  have h2 := Scan.token_before_blank hk (w := []) (by simp)
  rw [h1] at h2
  cases h2
  rfl

lemma spells_of_token {kind : TokenKind} {p : List Char}
    (h : Scan.token p = Scan.done p [] kind) : kind.Spells p := by
  have hs : kind.Spells (Scan.token p).taken := Scan.spells_token (by rw [h]; rfl)
  rwa [h] at hs

/-- The characters of numerals are ASCII and neither spacing nor underscores. -/
lemma numeral_character {c : Char} (h : isDigit c = true ∨ isSign c = true ∨ c = '.') :
    isSpace c = false ∧ c.toNat < 128 ∧ c ≠ '_' := by
  rcases h with h | h | rfl
  · have hn := isDigit_iff.mp h
    refine ⟨?_, by omega, ?_⟩
    · simp [isSpace]
      omega
    · rintro rfl
      revert h
      decide
  · simp only [isSign, Bool.or_eq_true, beq_iff_eq] at h
    rcases h with rfl | rfl <;> decide
  · decide

lemma IsSignPart.all_isSign {sign : List Char} (h : IsSignPart sign) :
    ∀ c ∈ sign, isSign c = true := by
  rcases h with rfl | ⟨c, rfl, hc⟩
  · simp
  · simpa using hc

lemma trimEnds_numeral {p : Char → Bool} (hp : ∀ c, isSpace c = false → p c = false)
    {cs : List Char} (h : ∀ c ∈ cs, isDigit c = true ∨ isSign c = true ∨ c = '.') :
    trimEnds p cs = cs :=
  trimEnds_eq_self (fun c hc => hp c (numeral_character (h c (List.mem_of_mem_head? hc))).1)
    fun c hc => hp c (numeral_character (h c (List.mem_of_mem_getLast? hc))).1

lemma splitSign_append {sign : List Char} (hs : IsSignPart sign) {d : Char}
    (hd : isDigit d = true) (r : List Char) :
    splitSign (sign ++ d :: r) = (sign == ['-'], d :: r) := by
  have hsign := isSign_of_isDigit hd
  rcases hs with rfl | ⟨c, rfl, hc⟩
  · have hm : d ≠ '-' := by rintro rfl; cases hsign
    have hp : d ≠ '+' := by rintro rfl; cases hsign
    rw [List.nil_append]
    unfold splitSign
    split
    · next h => cases h; exact absurd rfl hm
    · next h => cases h; exact absurd rfl hp
    · rfl
  · simp only [isSign, Bool.or_eq_true, beq_iff_eq] at hc
    rcases hc with rfl | rfl <;> rfl

lemma groupedDigits?_digits {ds : List Char} (hne : ds ≠ []) (h : ∀ d ∈ ds, isDigit d = true) :
    groupedDigits? ds = some ds := by
  have hu : '_' ∉ ds := fun hm => (numeral_character (.inl (h _ hm))).2.2 rfl
  have hall : ds.all Char.isDigit = true := List.all_eq_true.mpr h
  unfold groupedDigits?
  rw [List.splitOn_eq_singleton hu]
  simp [hne, hall]

/-- The sign aside, digits denote what they do alone. -/
lemma natAbs_integerValue {sign ds : List Char} (hs : IsSignPart sign) (hne : ds ≠ [])
    (hd : ∀ d ∈ ds, isDigit d = true) :
    (integerValue (sign ++ ds)).natAbs = digitsValue ds := by
  obtain ⟨d, r, rfl⟩ := List.exists_cons_of_ne_nil hne
  simp only [integerValue, splitSign_append hs (hd d (List.mem_cons_self ..))]
  split <;> omega

/-- A sign and digits are read as the integer they denote if the digits are not too many. -/
lemma readInteger?_numeral {sign ds : List Char} (hs : IsSignPart sign) (hne : ds ≠ [])
    (hd : ∀ d ∈ ds, isDigit d = true) {text : String} (ht : text.toList = sign ++ ds) :
    readInteger? text =
      if maxIntegerDigits < ds.length then none else some (integerValue text.toList) := by
  have hall : ∀ c ∈ sign ++ ds, isDigit c = true ∨ isSign c = true ∨ c = '.' := by
    intro c hc
    rcases List.mem_append.mp hc with hc | hc
    · exact .inr (.inl (hs.all_isSign c hc))
    · exact .inl (hd c hc)
  have htrim : trimEnds isIntegerMargin (sign ++ ds) = sign ++ ds :=
    trimEnds_numeral (fun c hc => by simp [isIntegerMargin, hc]) hall
  have hmap : (sign ++ ds).map asciiDigit = sign ++ ds :=
    map_asciiDigit_eq_self fun c hc => (numeral_character (hall c hc)).2.1
  obtain ⟨d, r, rfl⟩ := List.exists_cons_of_ne_nil hne
  have hsplit := splitSign_append hs (hd d (List.mem_cons_self ..)) r
  simp only [readInteger?, integerValue, ht, htrim, hmap, hsplit, groupedDigits?_digits hne hd]

section Decimal

variable {sign whole fraction : List Char}

lemma decimal_character (hs : IsSignPart sign) (hw : ∀ d ∈ whole, isDigit d = true)
    (hf : ∀ d ∈ fraction, isDigit d = true) :
    ∀ c ∈ sign ++ whole ++ '.' :: fraction, isDigit c = true ∨ isSign c = true ∨ c = '.' := by
  intro c hc
  simp only [List.mem_append, List.mem_cons] at hc
  rcases hc with (hc | hc) | rfl | hc
  · exact .inr (.inl (hs.all_isSign c hc))
  · exact .inl (hw c hc)
  · exact .inr (.inr rfl)
  · exact .inl (hf c hc)

lemma splitSign_decimal (hs : IsSignPart sign) (hne : whole ≠ [])
    (hw : ∀ d ∈ whole, isDigit d = true) :
    splitSign (sign ++ whole ++ '.' :: fraction) = (sign == ['-'], whole ++ '.' :: fraction) := by
  obtain ⟨d, r, rfl⟩ := List.exists_cons_of_ne_nil hne
  rw [List.append_assoc]
  exact splitSign_append hs (hw d (List.mem_cons_self ..)) _

lemma readFinite?_decimal (hne : whole ≠ []) (hw : ∀ d ∈ whole, isDigit d = true)
    (hf : ∀ d ∈ fraction, isDigit d = true) :
    Magnitude.readFinite? (whole ++ '.' :: fraction) =
      some (.finite (digitsValue (whole ++ fraction)) (-fraction.length)) := by
  have hpoint : Char.isDigit '.' = false := rfl
  have htake : (whole ++ '.' :: fraction).takeWhile Char.isDigit = whole := by
    simp [List.takeWhile_append_of_pos (p := Char.isDigit) hw, hpoint]
  have hdrop : (whole ++ '.' :: fraction).dropWhile Char.isDigit = '.' :: fraction := by
    simp [List.dropWhile_append_of_pos (p := Char.isDigit) hw, hpoint]
  have htake' : fraction.takeWhile Char.isDigit = fraction := List.takeWhile_eq_self_iff.mpr hf
  have hdrop' : fraction.dropWhile Char.isDigit = [] := List.dropWhile_eq_nil_iff.mpr hf
  simp only [Magnitude.readFinite?, htake, hdrop, htake', hdrop']
  simp [hne]

lemma read?_decimal (hs : IsSignPart sign) (hne : whole ≠ []) (hw : ∀ d ∈ whole, isDigit d = true)
    (hf : ∀ d ∈ fraction, isDigit d = true) {text : String}
    (ht : text.toList = sign ++ whole ++ '.' :: fraction) :
    Decimal.read? text = some ⟨sign == ['-'],
      .finite (digitsValue (whole ++ fraction)) (-fraction.length)⟩ := by
  have hall := decimal_character hs hw hf
  have htrim := trimEnds_numeral (p := isSpace) (fun c hc => hc) hall
  have hfilter := List.filter_eq_self (p := (· != '_')).mpr fun c hc => by
    simpa using (numeral_character (hall c hc)).2.2
  have hmap := map_asciiDigit_eq_self fun c hc => (numeral_character (hall c hc)).2.1
  simp only [Decimal.read?, ht, htrim, hfilter, hmap, splitSign_decimal hs hne hw,
    readFinite?_decimal hne hw hf]
  rfl

lemma decimalValue_decimal (hs : IsSignPart sign) (hne : whole ≠ [])
    (hw : ∀ d ∈ whole, isDigit d = true) :
    decimalValue (sign ++ whole ++ '.' :: fraction) = ⟨sign == ['-'],
      .finite (digitsValue (whole ++ fraction)) (-fraction.length)⟩ := by
  have hpoint : ∀ d ∈ whole, (d != '.') = true := by
    intro d hd
    have hdigit := hw d hd
    simp only [bne_iff_ne, ne_eq]
    rintro rfl
    revert hdigit
    decide
  have htake : (whole ++ '.' :: fraction).takeWhile (· != '.') = whole := by
    simp [List.takeWhile_append_of_pos hpoint]
  have hdrop : (whole ++ '.' :: fraction).dropWhile (· != '.') = '.' :: fraction := by
    simp [List.dropWhile_append_of_pos hpoint]
  simp only [decimalValue, splitSign_decimal hs hne hw, htake, hdrop, List.drop_succ_cons,
    List.drop_zero]

end Decimal

lemma integer_parts {cs : List Char} (h : TokenKind.integer.Spells cs) :
    ∃ sign ds, cs = sign ++ ds ∧ IsSignPart sign ∧ ds ≠ [] ∧ ∀ d ∈ ds, isDigit d = true := by
  rcases h with rfl | ⟨sign, p, rfl, hs, hp⟩
  · exact ⟨[], ['0'], rfl, .inl rfl, by simp, by simp; decide⟩
  · obtain ⟨c, r, rfl, -⟩ := id hp
    exact ⟨sign, c :: r, rfl, hs, by simp, hp.all_isDigit⟩

/-- The digits in front of the point of a decimal. -/
lemma whole_digits {whole : List Char} (h : whole = ['0'] ∨ IsPositive whole) :
    whole ≠ [] ∧ ∀ d ∈ whole, isDigit d = true := by
  obtain rfl | h := h
  · exact ⟨by simp, by simp; decide⟩
  · obtain ⟨c, r, rfl, -⟩ := id h
    exact ⟨by simp, h.all_isDigit⟩

lemma decimal_parts {cs : List Char} (h : TokenKind.decimal.Spells cs) :
    ∃ sign whole fraction, cs = sign ++ whole ++ '.' :: fraction ∧ IsSignPart sign ∧ whole ≠ [] ∧
      (∀ d ∈ whole, isDigit d = true) ∧ ∀ d ∈ fraction, isDigit d = true := by
  obtain ⟨sign, whole, fraction, rfl, hs, hwhole, -, hf⟩ := h
  obtain ⟨hne, hw⟩ := whole_digits hwhole
  exact ⟨sign, whole, fraction, rfl, hs, hne, hw, hf⟩

lemma IsSignPart.countP_isDigit {sign ds : List Char} (hs : IsSignPart sign)
    (hd : ∀ d ∈ ds, isDigit d = true) : (sign ++ ds).countP isDigit = ds.length := by
  have h0 : sign.countP isDigit = 0 :=
    List.countP_eq_zero.mpr fun c hc => by simp [isDigit_of_isSign (hs.all_isSign c hc)]
  rw [List.countP_append, h0, List.countP_eq_length.mpr hd, Nat.zero_add]

lemma kind_of_constant_text {t : Token} (hg : t.Genuine)
    (h : t.text = "NIL" ∨ t.text = "TRUE" ∨ t.text = "FALSE") : t.kind = .identifier := by
  rcases h with h | h | h <;> exact hg.kind_eq (by rw [h]; exact spells_of_token rfl)

lemma not_constant_text {t : Token} (hg : t.Genuine) (hk : t.kind ≠ .identifier) :
    t.text ≠ "NIL" ∧ t.text ≠ "TRUE" ∧ t.text ≠ "FALSE" :=
  ⟨fun h => hk (kind_of_constant_text hg (.inl h)),
    fun h => hk (kind_of_constant_text hg (.inr (.inl h))),
    fun h => hk (kind_of_constant_text hg (.inr (.inr h)))⟩

lemma constant?_integer {t : Token} (hg : t.Genuine) (hk : t.kind = .integer) :
    constant? t = if t.text.toList.countP isDigit ≤ maxIntegerDigits then
      some (.ok (.integer (integerValue t.text.toList))) else some (.error .integer) := by
  obtain ⟨h1, h2, h3⟩ := not_constant_text hg (by simp [hk])
  have hsp : TokenKind.integer.Spells t.text.toList := hk ▸ hg
  obtain ⟨sign, ds, ht, hs, hne, hd⟩ := integer_parts hsp
  have hcount : t.text.toList.countP isDigit = ds.length := by rw [ht, hs.countP_isDigit hd]
  simp only [constant?, h1, h2, h3, if_false, hk,
    readInteger?_numeral hs hne hd ht, hcount]
  by_cases hm : maxIntegerDigits < ds.length
  · rw [if_pos hm, if_neg (by omega)]
  · rw [if_neg hm, if_pos (by omega)]

lemma constant?_decimal {t : Token} (hg : t.Genuine) (hk : t.kind = .decimal) :
    constant? t = some (.ok (.decimal (decimalValue t.text.toList))) := by
  obtain ⟨h1, h2, h3⟩ := not_constant_text hg (by simp [hk])
  have hsp : TokenKind.decimal.Spells t.text.toList := hk ▸ hg
  obtain ⟨sign, whole, fraction, ht, hs, hne, hw, hf⟩ := decimal_parts hsp
  have hread := read?_decimal hs hne hw hf ht
  simp only [constant?, h1, h2, h3, if_false, hk, hread]
  rw [ht, decimalValue_decimal hs hne hw]

/-- What a token of the lexer is read as is what it denotes. -/
theorem denotes_of_constant? {t : Token} {v : Literal} (hg : t.Genuine)
    (h : constant? t = some (.ok v)) : Denotes t v := by
  cases hk : t.kind with
  | integer =>
    rw [constant?_integer hg hk] at h
    split at h
    · cases h
      exact .integer hk
    · cases h
  | decimal =>
    rw [constant?_decimal hg hk] at h
    cases h
    exact .decimal hk
  | character | string | identifier | operator =>
    unfold constant? at h
    split at h
    · next hn => cases h; exact .nil hn
    split at h
    · next ht => cases h; exact .truth ht
    split at h
    · next hf => cases h; exact .falsehood hf
    simp only [hk] at h
    first
      | cases h; exact .character hk
      | cases h; exact .string hk
      | cases h

lemma readable_of_constant? {t : Token} {v : Literal} (hg : t.Genuine)
    (h : constant? t = some (.ok v)) : t.Readable := by
  intro hk
  rw [constant?_integer hg hk] at h
  split at h
  · next hshort => exact hshort
  · cases h

/-- A token of the lexer is read as what it denotes, unless it is an integer that is too long. -/
theorem constant?_of_denotes {t : Token} {v : Literal} (hg : t.Genuine) (hr : t.Readable)
    (h : Denotes t v) : constant? t = some (.ok v) := by
  cases h with
  | nil h => simp [constant?, h]
  | truth h => simp [constant?, h]
  | falsehood h => simp [constant?, h]
  | integer hk => rw [constant?_integer hg hk, if_pos (hr hk)]
  | decimal hk => exact constant?_decimal hg hk
  | character hk =>
    obtain ⟨h1, h2, h3⟩ := not_constant_text hg (by simp [hk])
    simp [constant?, h1, h2, h3, hk]
  | string hk =>
    obtain ⟨h1, h2, h3⟩ := not_constant_text hg (by simp [hk])
    simp [constant?, h1, h2, h3, hk]

/-- A constant of the lexer that cannot be read is an integer with too many digits. -/
lemma overlong_of_constant? {t : Token} {kind : NumeralKind} (hg : t.Genuine)
    (h : constant? t = some (.error kind)) :
    kind = .integer ∧ t.kind = .integer ∧ maxIntegerDigits < t.text.toList.countP isDigit := by
  cases hk : t.kind with
  | integer =>
    rw [constant?_integer hg hk] at h
    split at h
    · cases h
    · next hlong =>
      cases h
      exact ⟨rfl, rfl, Nat.lt_of_not_le hlong⟩
  | decimal =>
    rw [constant?_decimal hg hk] at h
    cases h
  | character | string | identifier | operator =>
    unfold constant? at h
    split at h
    · cases h
    split at h
    · cases h
    split at h
    · cases h
    simp only [hk] at h
    cases h

end FrontEnd
