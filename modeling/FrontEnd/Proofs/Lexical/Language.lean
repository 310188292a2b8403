import FrontEnd.Token.Scan.Lemmas
import Mathlib.Data.List.TakeWhile
import Mathlib.Tactic.Common

/-!
# Token languages

The texts of each kind of token, as sets that do not mention the scanners, and the relation of the
scanners to them. What a scanner makes a token of lies in the language of its kind, and in front of
any text of some language a scanner takes at least that text, unless a zero is broken there: a sign
with a zero but no fraction, or a zero with a point but no digit.
-/

namespace FrontEnd

/-- Digits of which the first is no zero. -/
def IsPositive (cs : List Char) : Prop :=
  ∃ c r, cs = c :: r ∧ isDigit c = true ∧ c ≠ '0' ∧ ∀ d ∈ r, isDigit d = true

/-- A sign, or nothing. -/
def IsSignPart (cs : List Char) : Prop := cs = [] ∨ ∃ c, cs = [c] ∧ isSign c = true

/-- A character that stands for itself inside a literal, or an escape. -/
def IsItem (quote : Char) (cs : List Char) : Prop :=
  (∃ c, cs = [c] ∧ c ≠ quote ∧ c ≠ '\\' ∧ c ≠ '\n') ∨
    ∃ e, cs = ['\\', e] ∧ isEscapeLetter e = true

/-- A character that is an operator on its own. -/
def IsLoneOperator (c : Char) : Prop :=
  isSpace c = false ∧ isWordChar c = false ∧ c ≠ '\'' ∧ c ≠ '"'

/-- The texts of a kind of token. -/
def TokenKind.Spells : TokenKind → List Char → Prop
  | .identifier, cs =>
    ∃ c r, cs = c :: r ∧ isIdentifierStart c = true ∧ ∀ d ∈ r, isIdentifierChar d = true
  | .integer, cs => cs = ['0'] ∨ ∃ sign p, cs = sign ++ p ∧ IsSignPart sign ∧ IsPositive p
  | .decimal, cs =>
    ∃ sign whole fraction, cs = sign ++ whole ++ '.' :: fraction ∧ IsSignPart sign ∧
      (whole = ['0'] ∨ IsPositive whole) ∧ fraction ≠ [] ∧ ∀ d ∈ fraction, isDigit d = true
  | .character, cs => ∃ item, cs = '\'' :: item ++ ['\''] ∧ IsItem '\'' item
  | .string, cs => ∃ items, cs = '"' :: List.flatten items ++ ['"'] ∧ ∀ i ∈ items, IsItem '"' i
  | .operator, cs =>
    (∃ a b, cs = [a, b] ∧ Scan.isDoubleOperator a b = true) ∨ ∃ c, cs = [c] ∧ IsLoneOperator c

/-- A zero that is part of no number: it has a sign but no fraction, or a point but no digit. -/
def BrokenZero (cs : List Char) : Prop :=
  ∃ sign r, cs = sign ++ '0' :: r ∧ IsSignPart sign ∧ (sign ≠ [] ∨ r.head? = some '.') ∧
    ∀ d f, r = '.' :: d :: f → isDigit d = false

lemma isIdentifierStart_of_isDigit {c : Char} (h : isDigit c = true) :
    isIdentifierStart c = false := by
  simp [isIdentifierStart, h]

lemma isIdentifierStart_of_isSign {c : Char} (h : isSign c = true) :
    isIdentifierStart c = false := by
  simp only [isSign, Bool.or_eq_true, beq_iff_eq] at h
  rcases h with rfl | rfl <;> decide

lemma isWordChar_of_isSign {c : Char} (h : isSign c = true) : isWordChar c = false := by
  simp only [isSign, Bool.or_eq_true, beq_iff_eq] at h
  rcases h with rfl | rfl <;> decide

lemma isDigit_of_isSign {c : Char} (h : isSign c = true) : isDigit c = false := by
  simp only [isSign, Bool.or_eq_true, beq_iff_eq] at h
  rcases h with rfl | rfl <;> decide

lemma isSign_of_isDigit {c : Char} (h : isDigit c = true) : isSign c = false := by
  cases hs : isSign c with
  | false => rfl
  | true => rw [isDigit_of_isSign hs] at h; cases h

lemma IsPositive.all_isDigit {p : List Char} (h : IsPositive p) : ∀ d ∈ p, isDigit d = true := by
  obtain ⟨c, r, rfl, hc, -, hr⟩ := h
  intro d hd
  rcases List.mem_cons.mp hd with rfl | hd
  · exact hc
  · exact hr d hd

lemma IsSignPart.append_ne_zero {sign p : List Char} (hs : IsSignPart sign) (hp : IsPositive p) :
    sign ++ p ≠ ['0'] := by
  obtain ⟨c, r, rfl, hc, h0, -⟩ := hp
  rcases hs with rfl | ⟨s, rfl, hs⟩
  · intro h
    injection h with h _
    exact h0 h
  · intro h
    injection h with _ h
    cases h

/-- The first character of a two-character operator belongs to no other kind of token. -/
lemma isDoubleOperator_left {a b : Char} (h : Scan.isDoubleOperator a b = true) :
    isIdentifierStart a = false ∧ isDigit a = false ∧ isSign a = false ∧ a ≠ '\'' ∧ a ≠ '"' ∧
      isBlank a = false := by
  simp only [Scan.isDoubleOperator, Bool.or_eq_true, Bool.and_eq_true, beq_iff_eq] at h
  rcases h with ((((h | h) | h) | h) | h) | h <;> obtain ⟨rfl, rfl⟩ := h <;> decide

namespace Scan

lemma token_of_isIdentifierStart {c : Char} (r : List Char) (h : isIdentifierStart c = true) :
    token (c :: r) = identifier (c :: r) := by
  simp [token, h]

lemma token_of_isDigit {c : Char} (r : List Char) (h : isDigit c = true) :
    token (c :: r) = number (c :: r) := by
  simp [token, isIdentifierStart_of_isDigit h, h]

lemma token_of_isSign {c : Char} (r : List Char) (h : isSign c = true) :
    token (c :: r) = number (c :: r) := by
  simp [token, isIdentifierStart_of_isSign h, h]

lemma token_apostrophe (r : List Char) : token ('\'' :: r) = character ('\'' :: r) := rfl

lemma token_quote (r : List Char) : token ('"' :: r) = string ('"' :: r) := rfl

lemma token_of_isDoubleOperator {a b : Char} (r : List Char)
    (h : isDoubleOperator a b = true) : token (a :: b :: r) = done [a, b] r .operator := by
  obtain ⟨hi, hd, hs, hq, hq', -⟩ := isDoubleOperator_left h
  simp [token, hi, hd, hs, hq, hq', operator, h]

lemma token_of_isLoneOperator {c : Char} (r : List Char) (h : IsLoneOperator c)
    (hs : isSign c = false) : token (c :: r) = operator (c :: r) := by
  have hd : isDigit c = false := by
    cases hd : isDigit c with
    | false => rfl
    | true => have hw := isWordChar_of_isDigit hd; rw [h.2.1] at hw; cases hw
  simp [token, isIdentifierStart, h.2.1, hd, hs, h.2.2.1, h.2.2.2]

/-- A number after its sign is scanned as without it. -/
lemma token_number {sign : List Char} {d : Char} (hs : IsSignPart sign) (hd : isDigit d = true)
    (r : List Char) :
    token (sign ++ d :: r) = (unsigned (!sign.isEmpty) (d :: r)).after sign := by
  rcases hs with rfl | ⟨c, rfl, hc⟩
  · rw [List.nil_append, token_of_isDigit r hd]
    simp only [number, isSign_of_isDigit hd, Bool.false_eq_true, if_false]
    rfl
  · rw [List.cons_append, List.nil_append, token_of_isSign _ hc]
    simp [number, hc, hd]

/-! ### What the scanners make lies in the language of its kind -/

/-- A scan that makes a text of its kind, if anything, after some characters. -/
def SpellsAfter (front : List Char) (s : Scan TokenKind) : Prop :=
  ∀ kind, s.outcome = .ok kind → kind.Spells (front ++ s.taken)

lemma spells_identifier (cs : List Char) : SpellsAfter [] (identifier cs) := by
  intro kind h
  unfold identifier at h ⊢
  cases cs with
  | nil => cases h
  | cons c r =>
    dsimp only at h ⊢
    by_cases hc : isIdentifierStart c = true
    · rw [if_pos hc] at h ⊢
      cases h
      exact ⟨c, _, rfl, hc, fun d hd => List.mem_takeWhile_imp hd⟩
    · rw [if_neg hc] at h
      cases h

lemma mem_takeWhile_isDigit {cs : List Char} : ∀ d ∈ cs.takeWhile isDigit, isDigit d = true :=
  fun _ hd => List.mem_takeWhile_imp hd

lemma takeWhile_isDigit_ne_nil {f : List Char} (h : f.head?.any isDigit = true) :
    f.takeWhile isDigit ≠ [] := by
  cases f with
  | nil => cases h
  | cons d f =>
    have hd : isDigit d = true := h
    simp [hd]

lemma spells_zero {sign : List Char} (hs : IsSignPart sign) (r : List Char) :
    SpellsAfter sign (zero (!sign.isEmpty) r) := by
  intro kind h
  unfold zero at h ⊢
  split at h
  · next f =>
    by_cases hf : f.head?.any isDigit = true
    · rw [if_pos hf] at h ⊢
      cases h
      exact ⟨sign, ['0'], f.takeWhile isDigit, by simp [done], hs, .inl rfl,
        takeWhile_isDigit_ne_nil hf, mem_takeWhile_isDigit⟩
    · rw [if_neg hf] at h
      cases h
  · next r hr =>
    cases sign with
    | nil =>
      cases h
      exact .inl rfl
    | cons c sign => cases h

lemma isPositive_takeWhile {c : Char} {r : List Char} (hc : isDigit c = true) (h0 : c ≠ '0') :
    IsPositive ((c :: r).takeWhile isDigit) :=
  ⟨c, r.takeWhile isDigit, by simp [hc], hc, h0, mem_takeWhile_isDigit⟩

lemma spells_positive {sign : List Char} (hs : IsSignPart sign) {c : Char} {r : List Char}
    (hc : isDigit c = true) (h0 : c ≠ '0') : SpellsAfter sign (positive (c :: r)) := by
  intro kind h
  have hp := isPositive_takeWhile (r := r) hc h0
  unfold positive at h ⊢
  dsimp only at h ⊢
  split at h
  · next f hf =>
    by_cases hd : f.head?.any isDigit = true
    · rw [if_pos hd] at h ⊢
      cases h
      exact ⟨sign, _, f.takeWhile isDigit, by simp [done], hs, .inr hp,
        takeWhile_isDigit_ne_nil hd, mem_takeWhile_isDigit⟩
    · rw [if_neg hd] at h ⊢
      cases h
      exact .inr ⟨sign, _, rfl, hs, hp⟩
  · cases h
    exact .inr ⟨sign, _, rfl, hs, hp⟩

lemma spells_number (c : Char) (r : List Char) (hc : isDigit c = true ∨ isSign c = true) :
    SpellsAfter [] (token (c :: r)) := by
  have key : ∀ sign d t, IsSignPart sign → isDigit d = true →
      SpellsAfter [] (token (sign ++ d :: t)) := by
    intro sign d t hs hd kind h
    rw [token_number hs hd] at h ⊢
    by_cases h0 : d = '0'
    · subst h0
      exact spells_zero hs t kind h
    · simp only [unsigned, if_neg h0, hd, if_true] at h ⊢
      exact spells_positive hs hd h0 kind h
  rcases hc with hc | hc
  · exact key [] c r (.inl rfl) hc
  · by_cases hr : r.head?.any isDigit = true
    · cases r with
      | nil => cases hr
      | cons d t => exact key [c] d t (.inr ⟨c, rfl, hc⟩) hr
    · intro kind h
      rw [token_of_isSign r hc] at h ⊢
      simp only [number, hc, if_true, hr] at h ⊢
      cases h
      refine .inr ⟨c, rfl, ?_, isWordChar_of_isSign hc, ?_⟩
      · simp only [isSign, Bool.or_eq_true, beq_iff_eq] at hc
        rcases hc with rfl | rfl <;> decide
      · constructor <;> (rintro rfl; revert hc; decide)

lemma closingQuote_ok {cs : List Char} {kind : TokenKind}
    (h : (closingQuote cs).outcome = .ok kind) :
    kind = .character ∧ (closingQuote cs).taken = ['\''] := by
  unfold closingQuote at h ⊢
  cases cs with
  | nil => cases h
  | cons c r =>
    dsimp only at h ⊢
    by_cases hc : c = '\''
    · rw [if_pos hc] at h ⊢
      cases h
      exact ⟨rfl, by rw [hc]; rfl⟩
    · rw [if_neg hc] at h
      cases h

lemma escape_ok {cs : List Char} (h : (escape cs).outcome = .ok ()) :
    ∃ e, (escape cs).taken = [e] ∧ isEscapeLetter e = true := by
  unfold escape at h ⊢
  cases cs with
  | nil => cases h
  | cons c r =>
    dsimp only at h ⊢
    by_cases hc : isEscapeLetter c = true
    · rw [if_pos hc]
      exact ⟨c, rfl, hc⟩
    · rw [if_neg hc] at h
      cases h

lemma spells_characterBody (cs : List Char) : SpellsAfter ['\''] (characterBody cs) := by
  intro kind h
  unfold characterBody at h ⊢
  cases cs with
  | nil => cases h
  | cons c r =>
    dsimp only at h ⊢
    by_cases hq : c = '\''
    · rw [if_pos hq] at h
      cases h
    by_cases hn : c = '\n'
    · rw [if_neg hq, if_pos hn] at h
      cases h
    rw [if_neg hq, if_neg hn] at h ⊢
    by_cases hb : c = '\\'
    · rw [if_pos hb] at h ⊢
      split at h
      · next he =>
        obtain ⟨e, hte, hle⟩ := escape_ok he
        obtain ⟨rfl, ht⟩ := closingQuote_ok h
        exact ⟨['\\', e], by simp [after, ht, hte, hb], .inr ⟨e, rfl, hle⟩⟩
      · cases h
    · rw [if_neg hb] at h ⊢
      obtain ⟨rfl, ht⟩ := closingQuote_ok h
      exact ⟨[c], by simp [after, ht], .inl ⟨c, rfl, hq, hb, hn⟩⟩

/-- The body of a string is items up to the closing quote. -/
lemma stringBody_ok {cs : List Char} {kind : TokenKind} (h : (stringBody cs).outcome = .ok kind) :
    kind = .string ∧
      ∃ items, (stringBody cs).taken = List.flatten items ++ ['"'] ∧ ∀ i ∈ items, IsItem '"' i := by
  fun_induction stringBody cs with
  | case1 => cases h
  | case2 r =>
    cases h
    exact ⟨rfl, [], rfl, by simp⟩
  | case3 => cases h
  | case4 => cases h
  | case5 e r' he _ _ ih =>
    obtain ⟨rfl, items, ht, hi⟩ := ih h
    refine ⟨rfl, ['\\', e] :: items, by simp [after, ht], ?_⟩
    simpa using ⟨.inr ⟨e, rfl, he⟩, hi⟩
  | case6 => cases h
  | case7 c r hq hn hb ih =>
    obtain ⟨rfl, items, ht, hi⟩ := ih h
    refine ⟨rfl, [c] :: items, by simp [after, ht], ?_⟩
    simpa using ⟨.inl ⟨c, rfl, hq, hb, hn⟩, hi⟩

lemma spells_operator {c : Char} (r : List Char) (hi : isIdentifierStart c = false)
    (hd : isDigit c = false) (hq : c ≠ '\'') (hq' : c ≠ '"') :
    SpellsAfter [] (operator (c :: r)) := by
  have hw : isWordChar c = false := by simpa [isIdentifierStart, hd] using hi
  have single : SpellsAfter [] (singleOperator (c :: r)) := by
    intro kind h
    unfold singleOperator at h ⊢
    dsimp only at h ⊢
    by_cases hs : isSpace c = true
    · rw [if_pos hs] at h
      cases h
    · rw [if_neg hs] at h ⊢
      cases h
      exact .inr ⟨c, rfl, by simpa using hs, hw, hq, hq'⟩
  intro kind h
  cases r with
  | nil => exact single kind h
  | cons b r =>
    by_cases hab : isDoubleOperator c b = true
    · simp only [operator, hab, if_true] at h ⊢
      cases h
      exact .inl ⟨c, b, rfl, hab⟩
    · simp only [operator, hab, Bool.false_eq_true, if_false] at h ⊢
      exact single kind h

/-- What becomes a token lies in the language of its kind. -/
theorem spells_token {cs : List Char} {kind : TokenKind} (h : (token cs).outcome = .ok kind) :
    kind.Spells (token cs).taken := by
  cases cs with
  | nil => cases h
  | cons c r =>
    by_cases hi : isIdentifierStart c = true
    · rw [token_of_isIdentifierStart r hi] at h ⊢
      exact spells_identifier _ kind h
    by_cases hn : isDigit c = true ∨ isSign c = true
    · exact spells_number c r hn kind h
    obtain ⟨hd, hs⟩ := not_or.mp hn
    by_cases hq : c = '\''
    · subst hq
      rw [token_apostrophe] at h ⊢
      exact spells_characterBody r kind h
    by_cases hq' : c = '"'
    · subst hq'
      rw [token_quote] at h ⊢
      obtain ⟨rfl, items, ht, hi⟩ := stringBody_ok h
      exact ⟨items, by simp [string, after, ht], hi⟩
    have ho : token (c :: r) = operator (c :: r) := by
      simp [token, hi, hd, hs, hq, hq']
    rw [ho] at h ⊢
    exact spells_operator r (by simpa using hi) (by simpa using hd) hq hq' kind h

/-! ### What the scanners do in front of a text of some language -/

lemma token_identifier {p : List Char} (h : TokenKind.identifier.Spells p) (w : List Char) :
    token (p ++ w) =
      done (p ++ w.takeWhile isIdentifierChar) (w.dropWhile isIdentifierChar) .identifier := by
  obtain ⟨c, r, rfl, hc, hr⟩ := h
  rw [List.cons_append, token_of_isIdentifierStart _ hc]
  simp only [identifier, hc, if_true]
  rw [List.takeWhile_append_of_pos hr, List.dropWhile_append_of_pos hr, List.cons_append]

lemma positive_point {p f : List Char} (hp : ∀ d ∈ p, isDigit d = true)
    (hf : f.head?.any isDigit = true) :
    positive (p ++ '.' :: f) =
      done (p ++ '.' :: f.takeWhile isDigit) (f.dropWhile isDigit) .decimal := by
  have hpoint : isDigit '.' = false := rfl
  have ht : (p ++ '.' :: f).takeWhile isDigit = p := by
    simp [List.takeWhile_append_of_pos hp, hpoint]
  have hd : (p ++ '.' :: f).dropWhile isDigit = '.' :: f := by
    simp [List.dropWhile_append_of_pos hp, hpoint]
  simp only [positive, ht, hd, hf, if_true]

lemma positive_stop {p w : List Char} (hp : ∀ d ∈ p, isDigit d = true)
    (hw : ∀ d ∈ w.head?, isDigit d = false)
    (hf : ∀ d f, w = '.' :: d :: f → isDigit d = false) :
    positive (p ++ w) = done p w .integer := by
  have ht : (p ++ w).takeWhile isDigit = p := by
    cases w with
    | nil => simpa using hp
    | cons d w => simp [List.takeWhile_append_of_pos hp, hw d rfl]
  have hd : (p ++ w).dropWhile isDigit = w := by
    rw [List.dropWhile_append_of_pos hp]
    cases w with
    | nil => rfl
    | cons d w => simp [hw d rfl]
  simp only [positive, ht, hd]
  split
  · next f =>
    have hn : f.head?.any isDigit = false := by
      cases f with
      | nil => rfl
      | cons d f => exact hf d f rfl
    rw [hn]
    rfl
  · rfl

lemma positive_ok (cs : List Char) :
    ∃ kind, (positive cs).outcome = .ok kind ∧
      (cs.takeWhile isDigit).length ≤ (positive cs).taken.length := by
  unfold positive
  dsimp only
  split
  · split
    · exact ⟨_, rfl, by simp [done]⟩
    · exact ⟨_, rfl, by simp [done]⟩
  · exact ⟨_, rfl, by simp [done]⟩

lemma token_zero (w : List Char) : token ('0' :: w) = zero false w := rfl

lemma token_positive {sign p : List Char} (hs : IsSignPart sign) (hp : IsPositive p)
    (w : List Char) : token (sign ++ p ++ w) = (positive (p ++ w)).after sign := by
  obtain ⟨c, r, rfl, hc, h0, -⟩ := hp
  rw [List.append_assoc, List.cons_append, token_number hs hc]
  simp only [unsigned, if_neg h0, hc, if_true]

lemma token_decimal {p : List Char} (h : TokenKind.decimal.Spells p) (w : List Char) :
    token (p ++ w) = done (p ++ w.takeWhile isDigit) (w.dropWhile isDigit) .decimal := by
  obtain ⟨sign, whole, f, rfl, hs, hw, hf, hd⟩ := h
  have hhead : (f ++ w).head?.any isDigit = true := by
    cases f with
    | nil => exact absurd rfl hf
    | cons d f => exact hd d (List.mem_cons_self ..)
  have ht : (f ++ w).takeWhile isDigit = f ++ w.takeWhile isDigit :=
    List.takeWhile_append_of_pos hd
  have hr : (f ++ w).dropWhile isDigit = w.dropWhile isDigit := List.dropWhile_append_of_pos hd
  rcases hw with rfl | hw
  · have hsplit : sign ++ ['0'] ++ '.' :: f ++ w = sign ++ '0' :: '.' :: (f ++ w) := by simp
    rw [hsplit, token_number hs rfl]
    simp only [unsigned, if_true, zero, hhead]
    simp [after, done, ht, hr]
  · have hsplit : sign ++ whole ++ '.' :: f ++ w = sign ++ whole ++ '.' :: (f ++ w) := by simp
    rw [hsplit, token_positive hs hw, positive_point hw.all_isDigit hhead]
    simp [after, done, ht, hr]

lemma token_character {p : List Char} (h : TokenKind.character.Spells p) (w : List Char) :
    token (p ++ w) = done p w .character := by
  obtain ⟨item, rfl, ⟨c, rfl, hq, hb, hn⟩ | ⟨e, rfl, he⟩⟩ := h
  · simp [token_apostrophe, character, characterBody, hq, hn, hb, closingQuote, after, done]
  · simp [token_apostrophe, character, characterBody, escape, he, closingQuote, after, done]

lemma stringBody_quote (w : List Char) : stringBody ('"' :: w) = done ['"'] w .string := by
  rw [stringBody.eq_def]
  rfl

lemma stringBody_raw {c : Char} (hq : c ≠ '"') (hb : c ≠ '\\') (hn : c ≠ '\n') (w : List Char) :
    stringBody (c :: w) = (stringBody w).after [c] := by
  rw [stringBody.eq_def]
  simp [hq, hb, hn]

lemma stringBody_escape {e : Char} (he : isEscapeLetter e = true) (w : List Char) :
    stringBody ('\\' :: e :: w) = (stringBody w).after ['\\', e] := by
  rw [stringBody.eq_def]
  simp [he]

lemma stringBody_items {items : List (List Char)} (h : ∀ i ∈ items, IsItem '"' i)
    (w : List Char) :
    stringBody (items.flatten ++ '"' :: w) = done (items.flatten ++ ['"']) w .string := by
  induction items with
  | nil => exact stringBody_quote w
  | cons i items ih =>
    have hi := h i (List.mem_cons_self ..)
    have ih := ih fun j hj => h j (List.mem_cons_of_mem _ hj)
    obtain ⟨c, rfl, hq, hb, hn⟩ | ⟨e, rfl, he⟩ := hi
    · rw [List.flatten_cons, List.append_assoc, List.singleton_append, stringBody_raw hq hb hn, ih]
      simp [after, done]
    · rw [List.flatten_cons, List.append_assoc, List.cons_append, List.singleton_append,
        stringBody_escape he, ih]
      simp [after, done]

lemma token_string {p : List Char} (h : TokenKind.string.Spells p) (w : List Char) :
    token (p ++ w) = done p w .string := by
  obtain ⟨items, rfl, hi⟩ := h
  have hsplit : '"' :: items.flatten ++ ['"'] ++ w = '"' :: (items.flatten ++ '"' :: w) := by simp
  rw [hsplit, token_quote]
  simp [string, stringBody_items hi, after, done]

/-! ### Where tokens end -/

lemma isDoubleOperator_of_isBlank {b : Char} (h : isBlank b = true) (a : Char) :
    isDoubleOperator a b = false := by
  simp only [isBlank, Bool.or_eq_true, beq_iff_eq] at h
  rcases h with ((rfl | rfl) | rfl) | rfl <;> simp [isDoubleOperator]

lemma isIdentifierChar_of_isBlank {b : Char} (h : isBlank b = true) :
    isIdentifierChar b = false := by
  simp only [isBlank, Bool.or_eq_true, beq_iff_eq] at h
  rcases h with ((rfl | rfl) | rfl) | rfl <;> decide

lemma isDigit_of_isBlank {b : Char} (h : isBlank b = true) : isDigit b = false := by
  simp only [isBlank, Bool.or_eq_true, beq_iff_eq] at h
  rcases h with ((rfl | rfl) | rfl) | rfl <;> decide

lemma ne_point_of_isBlank {b : Char} (h : isBlank b = true) : b ≠ '.' := by
  rintro rfl
  cases h

/-- A character behind a text of some kind that the scanner would not leave to another token. -/
def GoesOn : TokenKind → List Char → Char → Prop
  | .identifier, _, c => isIdentifierChar c = true
  | .integer, p, c => if p = ['0'] then c = '.' else isDigit c = true
  | .decimal, _, c => isDigit c = true
  | .character, _, _ | .string, _, _ => False
  | .operator, p, c =>
    ∃ o, p = [o] ∧ (isDoubleOperator o c = true ∨ (isSign o = true ∧ isDigit c = true))

/-- That a text of some kind is a token as it stands in front of some characters. They neither go
on with it nor make a fraction behind it. -/
structure Ends (kind : TokenKind) (p w : List Char) : Prop where
  head : ∀ c ∈ w.head?, ¬GoesOn kind p c
  fraction : kind = .integer → ∀ d f, w = '.' :: d :: f → isDigit d = false

lemma not_goesOn_of_isBlank {c : Char} (h : isBlank c = true) (kind : TokenKind) (p : List Char) :
    ¬GoesOn kind p c := by
  have hd := isDigit_of_isBlank h
  cases kind with
  | identifier => simp [GoesOn, isIdentifierChar_of_isBlank h]
  | integer =>
    by_cases hp : p = ['0']
    · simpa [GoesOn, hp] using ne_point_of_isBlank h
    · simp [GoesOn, hp, hd]
  | decimal => simp [GoesOn, hd]
  | character => exact not_false
  | string => exact not_false
  | operator =>
    rintro ⟨o, -, ho | ⟨-, hc⟩⟩
    · rw [isDoubleOperator_of_isBlank h] at ho
      cases ho
    · rw [hd] at hc
      cases hc

/-- The end of a token depends on the next character and, behind a point, on the one after it. -/
lemma Ends.mono {kind : TokenKind} {p w w' : List Char} (h : Ends kind p w)
    (hhead : ∀ c ∈ w'.head?, isBlank c = true ∨ c ∈ w.head?)
    (hpoint : ∀ d f, w' = '.' :: d :: f → isDigit d = true → ∃ f', w = '.' :: d :: f') :
    Ends kind p w' where
  head c hc := by
    rcases hhead c hc with hb | hw
    · exact not_goesOn_of_isBlank hb kind p
    · exact h.head c hw
  fraction hk d f hw' := by
    by_contra hd
    obtain ⟨f', hw⟩ := hpoint d f hw' (by simpa using hd)
    exact hd (h.fraction hk d f' hw)

lemma ends_before_blank (kind : TokenKind) (p : List Char) {w : List Char}
    (hw : ∀ b ∈ w.head?, isBlank b = true) : Ends kind p w where
  head c hc := not_goesOn_of_isBlank (hw c hc) kind p
  fraction _ d f h := by
    subst h
    exact absurd (hw '.' rfl) (by decide)

lemma takeWhile_of_head {q : Char → Bool} {w : List Char} (h : ∀ b ∈ w.head?, q b = false) :
    w.takeWhile q = [] ∧ w.dropWhile q = w := by
  cases w with
  | nil => exact ⟨rfl, rfl⟩
  | cons b w => simp [h b rfl]

lemma head_of_takeWhile {q : Char → Bool} {w : List Char} (h : w.takeWhile q = []) :
    ∀ b ∈ w.head?, q b = false := by
  intro b hb
  cases w with
  | nil => cases hb
  | cons c w =>
    cases hb
    by_contra hq
    simp [hq] at h

lemma zero_stop {w : List Char} (hw : ∀ b ∈ w.head?, b ≠ '.') :
    zero false w = done ['0'] w .integer := by
  unfold zero
  split
  · exact absurd rfl (hw '.' rfl)
  · rfl

lemma operator_stop {c : Char} {w : List Char} (hc : isSpace c = false)
    (hw : ∀ b ∈ w.head?, isDoubleOperator c b = false) :
    operator (c :: w) = done [c] w .operator := by
  cases w with
  | nil => simp [operator, singleOperator, hc]
  | cons b w => simp [operator, singleOperator, hc, hw b rfl]

/-- A text of some language that ends as it stands is scanned as just that token. -/
theorem token_of_ends {kind : TokenKind} {p w : List Char} (h : kind.Spells p)
    (he : Ends kind p w) : token (p ++ w) = done p w kind := by
  have hhead := he.head
  cases kind with
  | identifier =>
    obtain ⟨ht, hr⟩ := takeWhile_of_head fun b hb => by simpa [GoesOn] using hhead b hb
    rw [token_identifier h, ht, hr, List.append_nil]
  | integer =>
    rcases h with rfl | ⟨sign, p, rfl, hs, hp⟩
    · rw [List.singleton_append, token_zero, zero_stop fun b hb => by
        simpa [GoesOn] using hhead b hb]
    · have hne : sign ++ p ≠ ['0'] := hs.append_ne_zero hp
      have hdigit : ∀ d ∈ w.head?, isDigit d = false := fun d hd => by
        simpa [GoesOn, hne] using hhead d hd
      rw [token_positive hs hp, positive_stop hp.all_isDigit hdigit (he.fraction rfl)]
      rfl
  | decimal =>
    obtain ⟨ht, hr⟩ := takeWhile_of_head fun b hb => by simpa [GoesOn] using hhead b hb
    rw [token_decimal h, ht, hr, List.append_nil]
  | character => exact token_character h w
  | string => exact token_string h w
  | operator =>
    rcases h with ⟨a, b, rfl, hab⟩ | ⟨c, rfl, hc⟩
    · exact token_of_isDoubleOperator w hab
    · have hno : ∀ b ∈ w.head?, isDoubleOperator c b = false ∧
          (isSign c = true → isDigit b = false) := fun b hb => by
        simpa [GoesOn] using hhead b hb
      rw [List.singleton_append]
      by_cases hs : isSign c = true
      · rw [token_of_isSign w hs]
        have hn : w.head?.any isDigit = false := by
          cases w with
          | nil => rfl
          | cons b w => exact (hno b rfl).2 hs
        simp only [number, hs, hn, if_true, Bool.false_eq_true, if_false]
      · rw [token_of_isLoneOperator w hc (by simpa using hs),
          operator_stop hc.1 fun b hb => (hno b hb).1]

/-- Where the scanner ends a token, its text ends as it stands. -/
theorem ends_of_token {kind : TokenKind} {p w : List Char}
    (h : token (p ++ w) = done p w kind) : Ends kind p w := by
  have hs : kind.Spells (token (p ++ w)).taken := spells_token (by rw [h]; rfl)
  rw [h] at hs
  have hs : kind.Spells p := hs
  cases kind with
  | identifier =>
    rw [token_identifier hs] at h
    injection h with htaken _ _
    have hno := head_of_takeWhile (List.append_right_eq_self.mp htaken)
    exact ⟨fun c hc => by simpa [GoesOn] using hno c hc, fun hk => by cases hk⟩
  | integer =>
    rcases hs with rfl | ⟨sign, p, rfl, hsign, hp⟩
    · have hpoint : ∀ c ∈ w.head?, c ≠ '.' := by
        rintro c hc rfl
        cases w with
        | nil => cases hc
        | cons c w =>
          cases hc
          rw [List.singleton_append, token_zero, zero] at h
          split at h <;> cases h
      refine ⟨fun c hc => by simpa [GoesOn] using hpoint c hc, ?_⟩
      rintro - d f rfl
      exact absurd rfl (hpoint '.' rfl)
    · rw [token_positive hsign hp] at h
      have htaken : (positive (p ++ w)).taken = p :=
        List.append_cancel_left (congrArg Scan.taken h)
      refine ⟨fun c hc => ?_, ?_⟩
      · have hne : sign ++ p ≠ ['0'] := hsign.append_ne_zero hp
        simp only [GoesOn, if_neg hne]
        intro hd
        cases w with
        | nil => cases hc
        | cons b w =>
          cases hc
          obtain ⟨-, -, hl⟩ := positive_ok (p ++ c :: w)
          rw [htaken, List.takeWhile_append_of_pos hp.all_isDigit] at hl
          simp only [List.takeWhile_cons, hd, if_true, List.length_append, List.length_cons] at hl
          omega
      · rintro - d f rfl
        by_contra hd
        rw [positive_point hp.all_isDigit (by simpa using hd)] at h
        cases congrArg Scan.outcome h
  | decimal =>
    rw [token_decimal hs] at h
    injection h with htaken _ _
    have hno := head_of_takeWhile (List.append_right_eq_self.mp htaken)
    exact ⟨fun c hc => by simpa [GoesOn] using hno c hc, fun hk => by cases hk⟩
  | character => exact ⟨fun _ _ => not_false, fun hk => by cases hk⟩
  | string => exact ⟨fun _ _ => not_false, fun hk => by cases hk⟩
  | operator =>
    refine ⟨?_, fun hk => by cases hk⟩
    rintro c hc ⟨o, rfl, ho⟩
    cases w with
    | nil => cases hc
    | cons b w =>
      cases hc
      rw [List.singleton_append] at h
      rcases ho with ho | ⟨ho, hd⟩
      · rw [token_of_isDoubleOperator w ho] at h
        cases congrArg Scan.taken h
      · rw [show o :: c :: w = [o] ++ c :: w from rfl, token_number (.inr ⟨o, rfl, ho⟩) hd] at h
        have htaken : (unsigned (!List.isEmpty [o]) (c :: w)).taken = [] :=
          List.append_right_eq_self.mp (congrArg Scan.taken h)
        exact takes_unsigned _ _ .operator (congrArg Scan.outcome h) htaken

/-- A text of some language in front of a blank, or alone, is scanned as just that token. -/
theorem token_before_blank {kind : TokenKind} {p w : List Char} (h : kind.Spells p)
    (hw : ∀ b ∈ w.head?, isBlank b = true) : token (p ++ w) = done p w kind :=
  token_of_ends h (ends_before_blank kind p hw)

/-! ### Longest match -/

lemma zero_ok_or_broken {sign : List Char} (hs : IsSignPart sign) (r : List Char) :
    BrokenZero (sign ++ '0' :: r) ∨ ∃ kind, (zero (!sign.isEmpty) r).outcome = .ok kind := by
  unfold zero
  split
  · next f =>
    by_cases hf : f.head?.any isDigit = true
    · rw [if_pos hf]
      exact .inr ⟨_, rfl⟩
    · refine .inl ⟨sign, _, rfl, hs, .inr rfl, ?_⟩
      rintro d f' h
      cases h
      simpa using hf
  · next hr =>
    cases sign with
    | nil => exact .inr ⟨_, rfl⟩
    | cons c sign =>
      refine .inl ⟨c :: sign, r, rfl, hs, .inl (by simp), ?_⟩
      rintro d f rfl
      exact absurd rfl (hr (d :: f))

/-- A number is scanned in full unless its zero is broken. -/
lemma number_ok_or_broken {sign : List Char} {d : Char} (hs : IsSignPart sign)
    (hd : isDigit d = true) (r : List Char) :
    BrokenZero (sign ++ d :: r) ∨ ∃ kind, (token (sign ++ d :: r)).outcome = .ok kind := by
  rw [token_number hs hd]
  by_cases h0 : d = '0'
  · subst h0
    exact zero_ok_or_broken hs r
  · obtain ⟨kind, hk, -⟩ := positive_ok (d :: r)
    refine .inr ⟨kind, ?_⟩
    simp only [unsigned, if_neg h0, hd, if_true]
    exact hk

lemma lone_ok_or_broken {c : Char} (h : IsLoneOperator c) (w : List Char) :
    BrokenZero (c :: w) ∨ ∃ kind, (token (c :: w)).outcome = .ok kind := by
  by_cases hs : isSign c = true
  · cases w with
    | nil =>
      rw [token_of_isSign [] hs]
      simp [number, hs, done]
    | cons d w =>
      by_cases hd : isDigit d = true
      · exact number_ok_or_broken (.inr ⟨c, rfl, hs⟩) hd w
      · rw [token_of_isSign _ hs]
        simp [number, hs, hd, done]
  · rw [token_of_isLoneOperator w h (by simpa using hs)]
    unfold operator
    split
    · split
      · exact .inr ⟨_, rfl⟩
      · exact .inr ⟨_, by simp only [singleOperator, h.1]; rfl⟩
    · exact .inr ⟨_, by simp only [singleOperator, h.1]; rfl⟩

/-- In front of a text of some language at least that text is taken, unless a zero is broken. -/
theorem covers_or_broken {kind : TokenKind} {p : List Char} (h : kind.Spells p) (w : List Char) :
    BrokenZero (p ++ w) ∨
      ∃ k, (token (p ++ w)).outcome = .ok k ∧ p.length ≤ (token (p ++ w)).taken.length := by
  have one {c : Char} {k : TokenKind} (hk : (token (c :: w)).outcome = .ok k) :
      1 ≤ (token (c :: w)).taken.length :=
    List.length_pos_iff.mpr (takes_token _ k hk)
  cases kind with
  | identifier =>
    rw [token_identifier h]
    exact .inr ⟨_, rfl, by simp [done]⟩
  | integer =>
    rcases h with rfl | ⟨sign, p, rfl, hs, hp⟩
    · rcases number_ok_or_broken (.inl rfl) (d := '0') rfl w with hb | ⟨k, hk⟩
      · exact .inl hb
      · exact .inr ⟨k, hk, one hk⟩
    · obtain ⟨k, hk, hl⟩ := positive_ok (p ++ w)
      rw [List.takeWhile_append_of_pos hp.all_isDigit, List.length_append] at hl
      rw [token_positive hs hp]
      refine .inr ⟨k, hk, ?_⟩
      simp only [after, List.length_append]
      omega
  | decimal =>
    rw [token_decimal h]
    exact .inr ⟨_, rfl, by simp [done]⟩
  | character =>
    rw [token_character h]
    exact .inr ⟨_, rfl, le_refl _⟩
  | string =>
    rw [token_string h]
    exact .inr ⟨_, rfl, le_refl _⟩
  | operator =>
    rcases h with ⟨a, b, rfl, hab⟩ | ⟨c, rfl, hc⟩
    · rw [List.cons_append, List.singleton_append, token_of_isDoubleOperator w hab]
      exact .inr ⟨_, rfl, le_refl _⟩
    · rcases lone_ok_or_broken hc w with hb | ⟨k, hk⟩
      · exact .inl hb
      · exact .inr ⟨k, hk, one hk⟩

/-- Nothing is scanned at a broken zero. -/
theorem error_of_brokenZero {cs : List Char} (h : BrokenZero cs) :
    ∃ problem, (token cs).outcome = .error problem := by
  obtain ⟨sign, r, rfl, hs, hor, hd⟩ := h
  rw [token_number hs rfl]
  simp only [unsigned, if_true, after]
  unfold zero
  split
  · next f =>
    have hf : f.head?.any isDigit = false := by
      cases f with
      | nil => rfl
      | cons d f => exact hd d f rfl
    rw [hf]
    exact ⟨_, rfl⟩
  · next hr =>
    cases sign with
    | nil =>
      rcases hor with h | h
      · exact absurd rfl h
      · cases r with
        | nil => cases h
        | cons c r =>
          cases h
          exact absurd rfl (hr r)
    | cons c sign => exact ⟨_, rfl⟩

end Scan

end FrontEnd
