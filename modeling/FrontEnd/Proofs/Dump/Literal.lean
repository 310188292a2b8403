import FrontEnd.Dump.Tree
import FrontEnd.Proofs.Dump.Quoted

/-!
# Printed constants are unambiguous

The printed form of a constant that source text denotes belongs to that constant only: its first
character tells the kind, except for numbers, where decimals have a point or an exponent and
integers have neither.
-/

namespace FrontEnd

lemma toDigits_injective {m n : Nat} (h : Nat.toDigits 10 m = Nat.toDigits 10 n) : m = n := by
  rw [← digitsValue_toDigits m, h, digitsValue_toDigits]

lemma notMem_toDigits {c : Char} (hc : isDigit c = false) (n : Nat) : c ∉ Nat.toDigits 10 n := by
  intro h
  rw [isDigit_of_mem_toDigits h] at hc
  cases hc

/-- A sign and digits belong to one number only. -/
lemma signed_injective {b c : Bool} {m n : Nat}
    (h : (if b then ['-'] else []) ++ Nat.toDigits 10 m =
      (if c then ['-'] else []) ++ Nat.toDigits 10 n) : b = c ∧ m = n := by
  have hsplit : ∀ (b : Bool) (m : Nat), splitSign ((if b then ['-'] else []) ++ Nat.toDigits 10 m) =
      (b, Nat.toDigits 10 m) := by
    intro b m
    obtain ⟨d, ds, hds⟩ := List.exists_cons_of_ne_nil (Nat.toDigits_ne_nil (n := m) (b := 10))
    rw [hds, splitSign_append (isSignPart_minus b)
      (isDigit_of_mem_toDigits (n := m) (by simp [hds])), minus_iff]
  have hboth := congrArg splitSign h
  rw [hsplit, hsplit, Prod.mk.injEq] at hboth
  exact ⟨hboth.1, toDigits_injective hboth.2⟩

/-- A constant that, if it is a decimal, has digits behind the point. -/
def Literal.HasFraction : Literal → Prop
  | decimal d => ∃ coefficient exponent, d.magnitude = .finite coefficient exponent ∧ exponent ≤ -1
  | _ => True

/-- Digits with an exponent are the digits, with a point among them if there are two or more, and
the exponent with its sign. -/
lemma scientific_parts (n : Nat) (power : Int) :
    ∃ mantissa, Magnitude.scientific (Nat.toDigits 10 n) power =
        mantissa ++ 'E' :: (if power < 0 then '-' else '+') :: Nat.toDigits 10 power.natAbs ∧
      mantissa.filter (· != '.') = Nat.toDigits 10 n ∧ 'E' ∉ mantissa := by
  have hpoint : (Nat.toDigits 10 n).filter (· != '.') = Nat.toDigits 10 n := by
    refine List.filter_eq_self.mpr fun d hd => ?_
    rw [bne_iff_ne]
    rintro rfl
    exact notMem_toDigits rfl n hd
  have hexponent : 'E' ∉ Nat.toDigits 10 n := notMem_toDigits rfl n
  unfold Magnitude.scientific
  split
  · next d e r h =>
    rw [h] at hpoint hexponent ⊢
    refine ⟨d :: '.' :: e :: r, rfl, ?_, by simpa using hexponent⟩
    rw [← hpoint]
    simp [List.filter_cons]
  · exact ⟨Nat.toDigits 10 n, rfl, hpoint, hexponent⟩

lemma Decimal.toList_text (d : Decimal) :
    d.text.toList = (if d.negative then ['-'] else []) ++ d.magnitude.text := by
  rw [Decimal.text, String.toList_ofList]
  cases d.negative <;> rfl

lemma Magnitude.text_finite (n : Nat) (e : Int) : (Magnitude.finite n e).text =
    if isPlain n e then pointed (Nat.toDigits 10 n) (-e).toNat
    else scientific (Nat.toDigits 10 n) (adjusted n e) :=
  rfl

lemma toList_text_of_isPlain {d : Decimal} {n : Nat} {e : Int} (hm : d.magnitude = .finite n e)
    (h : Magnitude.isPlain n e = true) : d.text.toList = plainText d := by
  rw [d.toList_text, plainText, hm, Magnitude.text_finite, if_pos h]

/-- The plain form has no exponent. -/
lemma parts_of_isPlain {d : Decimal} {n : Nat} {e : Int} (hm : d.magnitude = .finite n e)
    (he : e ≤ -1) (h : Magnitude.isPlain n e = true) :
    'E' ∉ d.text.toList ∧ '.' ∈ d.text.toList ∧ decimalValue d.text.toList = d := by
  obtain ⟨hspells, hvalue⟩ := plainText_parts (d := d) ⟨n, e, hm, he⟩
  rw [toList_text_of_isPlain hm h]
  obtain ⟨sign, whole, fraction, hparts, hsign, -, hw, hf⟩ := decimal_parts hspells
  refine ⟨fun hmem => ?_, by simp [hparts], hvalue⟩
  rw [hparts] at hmem
  obtain h | h | h := decimal_character hsign hw hf 'E' hmem <;> cases h

/-- The other form has one, and the text in front of it is that of the sign and the digits. -/
lemma parts_of_not_isPlain {d : Decimal} {n : Nat} {e : Int} (hm : d.magnitude = .finite n e)
    (h : Magnitude.isPlain n e = false) :
    ∃ front, d.text.toList = front ++ 'E' :: (if Magnitude.adjusted n e < 0 then '-' else '+') ::
        Nat.toDigits 10 (Magnitude.adjusted n e).natAbs ∧ 'E' ∉ front ∧
      front.filter (· != '.') = (if d.negative then ['-'] else []) ++ Nat.toDigits 10 n := by
  obtain ⟨mantissa, hparts, hfilter, hmem⟩ := scientific_parts n (Magnitude.adjusted n e)
  refine ⟨(if d.negative then ['-'] else []) ++ mantissa, ?_, ?_, ?_⟩
  · rw [d.toList_text, hm, Magnitude.text_finite, if_neg (ne_true_of_eq_false h), hparts,
      List.append_assoc]
  · cases d.negative <;> simpa using hmem
  · rw [List.filter_append, hfilter]
    cases d.negative <;> rfl

lemma exponent_mem_iff {d : Decimal} {n : Nat} {e : Int} (hm : d.magnitude = .finite n e)
    (he : e ≤ -1) : 'E' ∈ d.text.toList ↔ Magnitude.isPlain n e = false := by
  cases hp : Magnitude.isPlain n e with
  | true => simpa using (parts_of_isPlain hm he hp).1
  | false =>
    obtain ⟨front, htext, -⟩ := parts_of_not_isPlain hm hp
    simp [htext]

lemma point_or_exponent_mem {d : Decimal} (hd : (Literal.decimal d).HasFraction) :
    '.' ∈ d.text.toList ∨ 'E' ∈ d.text.toList := by
  obtain ⟨n, e, hm, he⟩ := hd
  cases hp : Magnitude.isPlain n e with
  | true => exact .inl (parts_of_isPlain hm he hp).2.1
  | false => exact .inr ((exponent_mem_iff hm he).mpr hp)

/-- A character of a printed number. -/
def IsNumeric (c : Char) : Prop := isDigit c = true ∨ isSign c = true ∨ c = '.' ∨ c = 'E'

lemma IsNumeric.ne {c d : Char} (h : IsNumeric c) (hdigit : isDigit d = false)
    (hsign : isSign d = false) (hpoint : d ≠ '.') (hexponent : d ≠ 'E') : c ≠ d := by
  rintro rfl
  obtain h | h | h | h := h
  · rw [hdigit] at h
    cases h
  · rw [hsign] at h
    cases h
  · exact hpoint h
  · exact hexponent h

lemma isNumeric_decimal {d : Decimal} (hd : (Literal.decimal d).HasFraction) :
    ∀ c ∈ d.text.toList, IsNumeric c := by
  obtain ⟨n, e, hm, he⟩ := hd
  intro c hc
  cases hp : Magnitude.isPlain n e with
  | true =>
    obtain ⟨sign, whole, fraction, hparts, hsign, -, hw, hf⟩ :=
      decimal_parts (plainText_parts (d := d) ⟨n, e, hm, he⟩).1
    rw [toList_text_of_isPlain hm hp, hparts] at hc
    obtain h | h | h := decimal_character hsign hw hf c hc
    · exact .inl h
    · exact .inr (.inl h)
    · exact .inr (.inr (.inl h))
  | false =>
    obtain ⟨front, htext, -, hfilter⟩ := parts_of_not_isPlain hm hp
    rw [htext, List.mem_append, List.mem_cons, List.mem_cons] at hc
    obtain hc | rfl | rfl | hc := hc
    · by_cases hpoint : c = '.'
      · exact .inr (.inr (.inl hpoint))
      · have hmem : c ∈ front.filter (· != '.') := List.mem_filter.mpr ⟨hc, bne_iff_ne.mpr hpoint⟩
        rw [hfilter, List.mem_append] at hmem
        obtain hmem | hmem := hmem
        · exact .inr (.inl ((isSignPart_minus d.negative).all_isSign c hmem))
        · exact .inl (isDigit_of_mem_toDigits hmem)
    · exact .inr (.inr (.inr rfl))
    · refine .inr (.inl ?_)
      split <;> rfl
    · exact .inl (isDigit_of_mem_toDigits hc)

section

variable {d e : Decimal} {m n : Nat} {i j : Int} (hd : d.magnitude = .finite m i)
  (he : e.magnitude = .finite n j)

include hd he

lemma decimal_eq (hsign : d.negative = e.negative) (hcoefficient : m = n) (hexponent : i = j) :
    d = e := by
  obtain ⟨b, u⟩ := d
  obtain ⟨c, v⟩ := e
  cases hd
  cases he
  cases hsign
  cases hcoefficient
  cases hexponent
  rfl

/-- The digits and the power of ten tell the exponent. -/
lemma eq_of_not_isPlain (hdp : Magnitude.isPlain m i = false) (hep : Magnitude.isPlain n j = false)
    (h : d.text.toList = e.text.toList) : d = e := by
  obtain ⟨front, htext, hfront, hfilter⟩ := parts_of_not_isPlain hd hdp
  obtain ⟨front', htext', hfront', hfilter'⟩ := parts_of_not_isPlain he hep
  rw [htext, htext'] at h
  obtain ⟨rfl, htail⟩ := append_cons_inj_of_first hfront hfront' h
  obtain ⟨hsign, hdigits⟩ := List.cons_eq_cons.mp htail
  obtain ⟨hnegative, rfl⟩ := signed_injective (hfilter.symm.trans hfilter')
  have hpower : Magnitude.adjusted m i = Magnitude.adjusted m j := by
    have habs := toDigits_injective hdigits
    split at hsign <;> split at hsign <;> first | omega | cases hsign
  refine decimal_eq hd he hnegative rfl ?_
  simp only [Magnitude.adjusted] at hpower
  omega

end

lemma decimal_text_injective {d e : Decimal} (hd : (Literal.decimal d).HasFraction)
    (he : (Literal.decimal e).HasFraction) (h : d.text = e.text) : d = e := by
  obtain ⟨m, i, hdm, hi⟩ := hd
  obtain ⟨n, j, hem, hj⟩ := he
  have hlist := congrArg String.toList h
  have hform : Magnitude.isPlain m i = false ↔ Magnitude.isPlain n j = false := by
    rw [← exponent_mem_iff hdm hi, ← exponent_mem_iff hem hj, h]
  cases hdp : Magnitude.isPlain m i with
  | true =>
    have hep : Magnitude.isPlain n j = true := by simpa [hdp] using hform
    obtain ⟨-, -, hdv⟩ := parts_of_isPlain hdm hi hdp
    obtain ⟨-, -, hev⟩ := parts_of_isPlain hem hj hep
    rw [← hdv, hlist, hev]
  | false => exact eq_of_not_isPlain hdm hem hdp (hform.mp hdp) hlist

lemma toList_toString_int (n : Int) : (toString n).toList = integerText n := by
  cases n with
  | ofNat n => simp [integerText, Int.toString_eq_repr, Int.repr]
  | negSucc n => simp [integerText, Int.toString_eq_repr, Int.repr]

lemma mem_integerText {n : Int} {c : Char} (h : c ∈ integerText n) :
    isDigit c = true ∨ isSign c = true := by
  obtain h | h := List.mem_append.mp h
  · split at h
    · obtain rfl := List.mem_singleton.mp h
      exact .inr rfl
    · cases h
  · exact .inl (isDigit_of_mem_toDigits h)

/-- A decimal is not printed as an integer. -/
lemma integerText_ne {d : Decimal} (hd : (Literal.decimal d).HasFraction) (n : Int) :
    integerText n ≠ d.text.toList := by
  intro heq
  obtain h | h := point_or_exponent_mem hd
  all_goals
    rw [← heq] at h
    obtain h | h := mem_integerText h <;> cases h

namespace Literal

/-- What the first character of a printed constant tells. -/
inductive Opening where
  | nil
  | boolean
  | number
  | character
  | string

/-- The constants that are printed with this character in front. -/
def openingOf (c : Char) : Opening :=
  if c = 'N' then .nil
  else if c = 'T' ∨ c = 'F' then .boolean
  else if c = 'C' then .character
  else if c = '\'' ∨ c = '"' then .string
  else .number

def opening : Literal → Opening
  | nil => .nil
  | boolean _ => .boolean
  | integer _ | decimal _ => .number
  | character _ => .character
  | string _ => .string

lemma openingOf_isNumeric {c : Char} (h : IsNumeric c) : openingOf c = .number := by
  simp (disch := decide) [openingOf, h.ne]

lemma isNumeric_integer (n : Int) : ∀ c ∈ integerText n, IsNumeric c := by
  intro c hc
  obtain h | h := mem_integerText hc
  · exact .inl h
  · exact .inr (.inl h)

lemma exists_opening {v : Literal} (hv : v.HasFraction) :
    ∃ c cs, v.text.toList = c :: cs ∧ openingOf c = v.opening := by
  have hnumber : ∀ cs : List Char, cs ≠ [] → (∀ c ∈ cs, IsNumeric c) →
      ∃ c r, cs = c :: r ∧ openingOf c = .number := by
    intro cs hne h
    obtain ⟨c, r, rfl⟩ := List.exists_cons_of_ne_nil hne
    exact ⟨c, r, rfl, openingOf_isNumeric (h c (List.mem_cons_self ..))⟩
  cases v with
  | nil => exact ⟨'N', _, rfl, rfl⟩
  | boolean b => cases b <;> exact ⟨_, _, rfl, rfl⟩
  | integer n =>
    have htext : (integer n).text.toList = integerText n := toList_toString_int n
    rw [htext]
    refine hnumber _ (fun h => ?_) (isNumeric_integer n)
    exact Nat.toDigits_ne_nil (List.append_eq_nil_iff.mp h).2
  | decimal d =>
    refine hnumber _ (fun h => ?_) (isNumeric_decimal hv)
    have hmem := point_or_exponent_mem hv
    change d.text.toList = [] at h
    simp [h] at hmem
  | character s => exact ⟨'C', _, by simp [text]; rfl, rfl⟩
  | string s =>
    refine ⟨_, _, Quoted.toList_text s, ?_⟩
    obtain h | h := Quoted.isQuote_quoteFor s.toList <;> rw [h] <;> rfl

/-- Constants of source text with one printed form are the same. -/
theorem text_injective {v w : Literal} (hv : v.HasFraction) (hw : w.HasFraction)
    (h : v.text = w.text) : v = w := by
  have hopening : v.opening = w.opening := by
    obtain ⟨c, cs, hvc, hc⟩ := exists_opening hv
    obtain ⟨d, ds, hwd, hd⟩ := exists_opening hw
    rw [h, hwd] at hvc
    rw [← hc, ← hd, (List.cons_eq_cons.mp hvc).1]
  cases v with
  | nil =>
    cases w with
    | nil => rfl
    | _ => cases hopening
  | boolean b =>
    cases w with
    | boolean c => cases b <;> cases c <;> first | rfl | exact absurd h (by decide)
    | _ => cases hopening
  | integer m =>
    cases w with
    | integer n =>
      have hlist := congrArg String.toList h
      have htext := (toList_toString_int m).symm.trans (hlist.trans (toList_toString_int n))
      rw [← integerValue_integerText m, htext, integerValue_integerText]
    | decimal d =>
      have hlist := congrArg String.toList h
      exact absurd ((toList_toString_int m).symm.trans hlist) (integerText_ne hw m)
    | _ => cases hopening
  | decimal d =>
    cases w with
    | integer n =>
      have hlist := congrArg String.toList h
      exact absurd ((toList_toString_int n).symm.trans hlist.symm) (integerText_ne hv n)
    | decimal e => rw [decimal_text_injective hv hw h]
    | _ => cases hopening
  | character s =>
    cases w with
    | character t =>
      have hquoted : Quoted.text s = Quoted.text t :=
        String.append_right_inj _ |>.mp (String.append_left_inj _ |>.mp h)
      rw [Quoted.text_injective hquoted]
    | _ => cases hopening
  | string s =>
    cases w with
    | string t => rw [Quoted.text_injective h]
    | _ => cases hopening

lemma newline_notMem_text {v : Literal} (hv : v.HasFraction) : '\n' ∉ v.text.toList := by
  have hnumber : ∀ cs : List Char, (∀ c ∈ cs, IsNumeric c) → '\n' ∉ cs :=
    fun cs h hmem => (h '\n' hmem).ne rfl rfl (by decide) (by decide) rfl
  cases v with
  | nil => decide
  | boolean b => cases b <;> decide
  | integer n =>
    have htext : (integer n).text.toList = integerText n := toList_toString_int n
    rw [htext]
    exact hnumber _ (isNumeric_integer n)
  | decimal d => exact hnumber _ (isNumeric_decimal hv)
  | character s =>
    have hquoted := Quoted.newline_notMem_text s
    simpa [text] using hquoted
  | string s => exact Quoted.newline_notMem_text s

end Literal

end FrontEnd
