import FrontEnd.Reading
import FrontEnd.Proofs.Lexical.Lexed

/-!
# Where lexical errors are reported

A lexical error lies at the end of the longest prefix that some continuation makes a source without
an error. Where a scanner fails, what it has taken can be completed to a token; and it fails in the
same way whatever stands behind the character that it fails at.
-/

namespace FrontEnd

/-- That some continuation of a text can be cut into tokens. -/
def Viable (cs : List Char) : Prop :=
  ∃ continuation ts, tokenize (String.ofList (cs ++ continuation)) = .ok ts

/-- A string literal without its closing quote. -/
def IsOpenString (cs : List Char) : Prop :=
  ∃ items, cs = '"' :: List.flatten items ∧ ∀ i ∈ items, IsItem '"' i

lemma IsOpenString.append {cs item : List Char} (h : IsOpenString cs) (hi : IsItem '"' item) :
    IsOpenString (cs ++ item) := by
  obtain ⟨items, rfl, hall⟩ := h
  exact ⟨items ++ [item], by simp, List.forall_mem_append.mpr ⟨hall, by simpa using hi⟩⟩

lemma IsOpenString.spells {cs : List Char} (h : IsOpenString cs) :
    TokenKind.string.Spells (cs ++ ['"']) := by
  obtain ⟨items, rfl, hall⟩ := h
  exact ⟨items, rfl, hall⟩

namespace Scan

/-- That a failed scan behind some characters could have become a token, if the text had been
another one from where it failed, and fails whatever stands behind the character it fails at. -/
structure Stuck (scanner : List Char → Scan TokenKind) (front : List Char) (s : Scan TokenKind)
    (problem : LexicalProblem) : Prop where
  completed : ∃ x kind, TokenKind.Spells kind (front ++ (s.taken ++ x))
  fails : ∀ c ∈ s.rest.head?, ∀ y, scanner (s.taken ++ c :: y) = failed s.taken (c :: y) problem

def Sticks (scanner : List Char → Scan TokenKind) (front cs : List Char) : Prop :=
  ∀ problem, (scanner cs).outcome = .error problem → Stuck scanner front (scanner cs) problem

section Sticks

variable {scanner inner : List Char → Scan TokenKind} {front taken x : List Char}
  {kind : TokenKind} {p : LexicalProblem}

lemma sticks_ok (kind : TokenKind) {cs : List Char} (h : (scanner cs).outcome = .ok kind) :
    Sticks scanner front cs := by
  intro problem ho
  rw [h] at ho
  cases ho

lemma sticks_end (hx : kind.Spells (front ++ (taken ++ x)))
    (hf : scanner taken = failed taken [] p) : Sticks scanner front taken := by
  intro problem ho
  rw [hf] at ho ⊢
  exact ⟨⟨x, kind, hx⟩, fun c hc => by cases hc⟩

lemma sticks_at {c : Char} (hx : kind.Spells (front ++ (taken ++ x)))
    (hf : ∀ y, scanner (taken ++ c :: y) = failed taken (c :: y) p) (r : List Char) :
    Sticks scanner front (taken ++ c :: r) := by
  intro problem ho
  rw [hf] at ho ⊢
  cases ho
  refine ⟨⟨x, kind, hx⟩, fun d hd y => ?_⟩
  cases hd
  exact hf y

/-- A scanner that hands on to another one behind some characters. -/
lemma sticks_after (pre : List Char) {cs : List Char}
    (hs : ∀ z, scanner (pre ++ z) = (inner z).after pre)
    (h : Sticks inner (front ++ pre) cs) : Sticks scanner front (pre ++ cs) := by
  intro problem ho
  rw [hs] at ho ⊢
  obtain ⟨⟨x, kind, hx⟩, hfails⟩ := h problem ho
  refine ⟨⟨x, kind, by simpa [after] using hx⟩, fun c hc y => ?_⟩
  rw [after, List.append_assoc, hs, hfails c hc y]
  rfl

end Sticks

lemma sticks_closingQuote {item : List Char} (hi : IsItem '\'' item) (cs : List Char) :
    Sticks closingQuote ('\'' :: item) cs := by
  have hx : TokenKind.character.Spells ('\'' :: item ++ ([] ++ ['\''])) := ⟨item, rfl, hi⟩
  cases cs with
  | nil => exact sticks_end hx rfl
  | cons c r =>
    by_cases hc : c = '\''
    · exact sticks_ok _ (congrArg outcome (if_pos hc))
    · exact sticks_at hx (fun y => if_neg hc) r

lemma characterBody_raw {c : Char} (hq : c ≠ '\'') (hb : c ≠ '\\') (hn : c ≠ '\n')
    (r : List Char) : characterBody (c :: r) = (closingQuote r).after [c] := by
  simp [characterBody, hq, hb, hn]

lemma characterBody_newline (r : List Char) :
    characterBody ('\n' :: r) = failed [] ('\n' :: r) .newlineInCharacter := rfl

lemma characterBody_escape {e : Char} (he : isEscapeLetter e = true) (r : List Char) :
    characterBody ('\\' :: e :: r) = (closingQuote r).after ['\\', e] := by
  simp [characterBody, escape, he, done]

lemma characterBody_unknownEscape {e : Char} (he : isEscapeLetter e ≠ true) (r : List Char) :
    characterBody ('\\' :: e :: r) = failed ['\\'] (e :: r) (.unknownEscape e) := by
  simp [characterBody, escape, he, failed]

lemma sticks_characterBody (cs : List Char) : Sticks characterBody ['\''] cs := by
  -- A body that has not got to its closing quote can still become one letter or one escape.
  have hletter : TokenKind.character.Spells (['\''] ++ ([] ++ ['a', '\''])) :=
    ⟨['a'], rfl, .inl ⟨'a', rfl, by decide⟩⟩
  have hescape : TokenKind.character.Spells (['\''] ++ (['\\'] ++ ['n', '\''])) :=
    ⟨['\\', 'n'], rfl, .inr ⟨'n', rfl, by decide⟩⟩
  cases cs with
  | nil => exact sticks_end hletter rfl
  | cons c r =>
    by_cases hq : c = '\''
    · exact sticks_at hletter (fun y => if_pos hq) r
    by_cases hn : c = '\n'
    · subst hn
      exact sticks_at hletter characterBody_newline r
    by_cases hb : c = '\\'
    · subst hb
      cases r with
      | nil => exact sticks_end hescape rfl
      | cons e r =>
        by_cases he : isEscapeLetter e = true
        · exact sticks_after ['\\', e] (characterBody_escape he)
            (sticks_closingQuote (.inr ⟨e, rfl, he⟩) r)
        · exact sticks_at hescape (characterBody_unknownEscape he) r
    · exact sticks_after [c] (characterBody_raw hq hb hn)
        (sticks_closingQuote (.inl ⟨c, rfl, hq, hb, hn⟩) r)

lemma stringBody_newline (r : List Char) :
    stringBody ('\n' :: r) = failed [] ('\n' :: r) .unterminatedString := by
  rw [stringBody.eq_def]
  rfl

lemma stringBody_unfinishedEscape : stringBody ['\\'] = failed ['\\'] [] .unfinishedEscape := by
  rw [stringBody.eq_def]
  rfl

lemma stringBody_unknownEscape {e : Char} (he : isEscapeLetter e ≠ true) (r : List Char) :
    stringBody ('\\' :: e :: r) = failed ['\\'] (e :: r) (.unknownEscape e) := by
  rw [stringBody.eq_def]
  simp [he]

lemma sticks_stringBody {front : List Char} (hfront : IsOpenString front) (cs : List Char) :
    Sticks stringBody front cs := by
  have hquote : ∀ {front}, IsOpenString front →
      TokenKind.string.Spells (front ++ ([] ++ ['"'])) := fun h => h.spells
  have hescape : ∀ {front}, IsOpenString front →
      TokenKind.string.Spells (front ++ (['\\'] ++ ['n', '"'])) := fun h => by
    simpa using (h.append (.inr ⟨'n', rfl, by decide⟩)).spells
  fun_induction stringBody cs generalizing front with
  | case1 => exact sticks_end (hquote hfront) rfl
  | case2 r => exact sticks_ok _ (congrArg outcome (stringBody_quote r))
  | case3 r => exact sticks_at (hquote hfront) stringBody_newline r
  | case4 => exact sticks_end (hescape hfront) stringBody_unfinishedEscape
  | case5 e r he _ _ ih =>
    exact sticks_after ['\\', e] (stringBody_escape he)
      (ih (hfront.append (.inr ⟨e, rfl, he⟩)))
  | case6 e r he => exact sticks_at (hescape hfront) (stringBody_unknownEscape he) r
  | case7 c r hq hn hb ih =>
    exact sticks_after [c] (stringBody_raw hq hb hn)
      (ih (hfront.append (.inl ⟨c, rfl, hq, hb, hn⟩)))

lemma zero_of_ne_point {c : Char} (h : c ≠ '.') (signed : Bool) (r : List Char) :
    zero signed (c :: r) =
      if signed then failed ['0'] (c :: r) .signedZero else done ['0'] (c :: r) .integer := by
  unfold zero
  split
  · next heq =>
    injection heq with hc _
    exact absurd hc h
  · rfl

lemma zero_point {f : List Char} (h : ∀ d ∈ f.head?, isDigit d = false) (signed : Bool) :
    zero signed ('.' :: f) = failed ['0', '.'] f .fractionDigit := by
  have hf : f.head?.any isDigit = false := by
    cases f with
    | nil => rfl
    | cons d f => exact h d rfl
  simp only [zero, hf, Bool.false_eq_true, if_false]

/-- Where a zero fails, a fraction could have made it a decimal. -/
lemma sticks_zero {sign : List Char} (hs : IsSignPart sign) (r : List Char) :
    Sticks token [] (sign ++ '0' :: r) := by
  have hdecimal : TokenKind.decimal.Spells (sign ++ ['0', '.', '0']) :=
    ⟨sign, ['0'], ['0'], by simp, hs, .inl rfl, by simp, List.forall_mem_singleton.mpr rfl⟩
  have hz : ∀ y, token (sign ++ '0' :: y) = (zero (!sign.isEmpty) y).after sign :=
    token_number hs rfl
  by_cases hpoint : r.head? = some '.'
  · obtain ⟨f, rfl⟩ := List.head?_eq_some_iff.mp hpoint
    have hx : TokenKind.decimal.Spells ([] ++ (sign ++ ['0', '.'] ++ ['0'])) := by
      simpa using hdecimal
    have hfailed : ∀ y, (∀ d ∈ y.head?, isDigit d = false) → token (sign ++ ['0', '.'] ++ y) =
        failed (sign ++ ['0', '.']) y .fractionDigit := fun y hy => by
      rw [List.append_assoc]
      exact (hz ('.' :: y)).trans (by rw [zero_point hy]; rfl)
    cases f with
    | nil => exact sticks_end hx (by simpa using hfailed [] (by simp))
    | cons d f =>
      by_cases hd : isDigit d = true
      · refine sticks_ok .decimal ?_
        rw [hz, zero]
        simp [hd, after, done]
      · have h := sticks_at (c := d) hx (fun y => hfailed (d :: y) (by simpa using hd)) f
        rwa [List.append_assoc] at h
  · have hne : ∀ c ∈ r.head?, c ≠ '.' := fun c hc h => hpoint (h ▸ hc)
    cases sign with
    | nil =>
      refine sticks_ok .integer ?_
      rw [List.nil_append, token_zero, zero_stop hne]
      rfl
    | cons s sign =>
      have hx : TokenKind.decimal.Spells ([] ++ (s :: sign ++ ['0'] ++ ['.', '0'])) := by
        simpa using hdecimal
      cases r with
      | nil => exact sticks_end hx (hz [])
      | cons c r =>
        have h := sticks_at (c := c) hx (fun y => by
          rw [List.append_assoc]
          exact (hz (c :: y)).trans (by rw [zero_of_ne_point (hne c rfl)]; rfl)) r
        rwa [List.append_assoc] at h

lemma sticks_number {sign : List Char} (hs : IsSignPart sign) {d : Char} (hd : isDigit d = true)
    (r : List Char) : Sticks token [] (sign ++ d :: r) := by
  by_cases h0 : d = '0'
  · subst h0
    exact sticks_zero hs r
  · obtain ⟨kind, hk, -⟩ := positive_ok (d :: r)
    refine sticks_ok kind ?_
    rw [token_number hs hd]
    simp only [unsigned, if_neg h0, hd, if_true]
    exact hk

/-- Where a token that starts with no spacing fails, it could have been completed. -/
lemma sticks_token {c : Char} (hc : isSpace c = false) (r : List Char) :
    Sticks token [] (c :: r) := by
  by_cases hi : isIdentifierStart c = true
  · refine sticks_ok .identifier ?_
    rw [token_of_isIdentifierStart r hi, identifier, if_pos hi]
    rfl
  by_cases hd : isDigit c = true
  · exact sticks_number (.inl rfl) hd r
  by_cases hs : isSign c = true
  · by_cases hr : r.head?.any isDigit = true
    · cases r with
      | nil => cases hr
      | cons d r => exact sticks_number (.inr ⟨c, rfl, hs⟩) hr r
    · refine sticks_ok .operator ?_
      rw [token_of_isSign r hs]
      simp only [number, hs, hr]
      rfl
  by_cases hq : c = '\''
  · subst hq
    exact sticks_after ['\''] (fun z => token_apostrophe z) (sticks_characterBody r)
  by_cases hq' : c = '"'
  · subst hq'
    exact sticks_after ['"'] (fun z => token_quote z)
      (sticks_stringBody ⟨[], rfl, by simp⟩ r)
  have hw : isWordChar c = false := by simpa [isIdentifierStart, hd] using hi
  obtain ⟨sign, r', hz, hsign, -⟩ | ⟨kind, hk⟩ := lone_ok_or_broken ⟨hc, hw, hq, hq'⟩ r
  · rcases hsign with rfl | ⟨s, rfl, hsign⟩
    · injection hz with hz _
      exact absurd (hz ▸ rfl) hd
    · injection hz with hz _
      exact absurd (hz ▸ hsign) hs
  · exact sticks_ok kind hk

lemma isSpace_of_isWordChar {c : Char} (h : isWordChar c = true) : isSpace c = false := by
  unfold isWordChar at h
  delta Char.isAlphanum Char.isAlpha Char.isUpper Char.isLower Char.isDigit at h
  simp only [Bool.or_eq_true, Bool.and_eq_true, decide_eq_true_eq, beq_iff_eq, ge_iff_le,
    UInt32.le_iff_toNat_le] at h
  have : c.toNat = c.val.toNat := rfl
  have : 'A'.val.toNat = 65 := rfl
  have : 'Z'.val.toNat = 90 := rfl
  have : 'a'.val.toNat = 97 := rfl
  have : 'z'.val.toNat = 122 := rfl
  have : '0'.val.toNat = 48 := rfl
  have : '9'.val.toNat = 57 := rfl
  rcases h with h | rfl
  · simp [isSpace]
    omega
  · decide

/-- The scanner fails at once at spacing that is no blank, and would fail at a blank. -/
lemma token_space {c : Char} (hc : isSpace c = true) (r : List Char) :
    token (c :: r) = failed [] (c :: r) .noOperator := by
  have hw : isWordChar c = false := by
    by_contra h
    rw [isSpace_of_isWordChar (by simpa using h)] at hc
    cases hc
  have hd : isDigit c = false := by
    by_contra h
    rw [isWordChar_of_isDigit (by simpa using h)] at hw
    cases hw
  have hne : ∀ d, isSpace d = false → c ≠ d := by
    rintro d hd rfl
    rw [hc] at hd
    cases hd
  have hs : isSign c = false := by simp [isSign, hne '+' rfl, hne '-' rfl]
  have hdouble : ∀ b, isDoubleOperator c b = false := fun b => by
    simp [isDoubleOperator, hne '&' rfl, hne '|' rfl, hne '!' rfl, hne '=' rfl, hne '<' rfl,
      hne '>' rfl]
  have ho : token (c :: r) = operator (c :: r) := by
    simp [token, isIdentifierStart, hw, hd, hs, hne '\'' rfl, hne '"' rfl]
  rw [ho]
  cases r with
  | nil => exact if_pos hc
  | cons b r =>
    rw [operator, if_neg (by simp [hdouble])]
    exact if_pos hc

lemma token_point (r : List Char) : token ('.' :: r) = done ['.'] r .operator := by
  have h : TokenKind.operator.Spells ['.'] := .inr ⟨'.', rfl, rfl, rfl, by decide, by decide⟩
  refine token_of_ends h ⟨?_, fun hk => by cases hk⟩
  rintro c - ⟨o, ho, hno | ⟨hno, -⟩⟩ <;> cases ho
  · simp [isDoubleOperator] at hno
  · cases hno

/-- What the scanner has taken where it fails is the start of a token, or nothing. -/
lemma completed_of_error {c : Char} {r : List Char} {problem : LexicalProblem}
    (h : (token (c :: r)).outcome = .error problem) :
    (token (c :: r)).taken = [] ∨
      ∃ x kind, TokenKind.Spells kind ((token (c :: r)).taken ++ x) := by
  by_cases hc : isSpace c = true
  · exact .inl (by rw [token_space hc]; rfl)
  · exact .inr (sticks_token (by simpa using hc) r problem h).completed

/-- The scanner fails in the same way whatever stands behind the character it fails at. -/
lemma fails_of_error {c : Char} {r : List Char} {problem : LexicalProblem}
    (h : (token (c :: r)).outcome = .error problem) :
    ∀ d ∈ (token (c :: r)).rest.head?, ∀ y, token ((token (c :: r)).taken ++ d :: y) =
      failed (token (c :: r)).taken (d :: y) problem := by
  by_cases hc : isSpace c = true
  · rw [token_space hc] at h ⊢
    cases h
    intro d hd y
    cases hd
    exact token_space hc y
  · exact (sticks_token (by simpa using hc) r problem h).fails

end Scan

open Scan

/-- The tokens in front of a place where the scanner fails are the same ones in front of any text
with the same first character. -/
lemma Lexed.before_failed {front r : List Char} {c : Char} {o : Nat} {ts : List Token}
    (h : Lexed (c :: r) o front ts) {problem : LexicalProblem}
    (hp : (Scan.token (c :: r)).outcome = .error problem) {w : List Char}
    (hw : ∀ d ∈ w.head?, d = c) : Lexed w o front ts := by
  have hne : c ≠ '.' := by
    rintro rfl
    rw [token_point] at hp
    cases hp
  apply h.behind
  intro d hd
  rw [hw d hd]
  exact .inr ⟨rfl, hne⟩

/-- What stands in front of the place where the scanner fails can be completed to a source. -/
lemma viable_of_error {front r : List Char} {c : Char} {ts : List Token}
    (h : Lexed (c :: r) 0 front ts)
    {problem : LexicalProblem} (hp : (Scan.token (c :: r)).outcome = .error problem) :
    Viable (front ++ (Scan.token (c :: r)).taken) := by
  have hinput : (Scan.token (c :: r)).taken ++ (Scan.token (c :: r)).rest = c :: r :=
    input_token (c :: r)
  by_cases hnil : (Scan.token (c :: r)).taken = []
  · rw [hnil, List.append_nil]
    refine ⟨[], ts, tokenize_of_lexed ?_⟩
    simpa using h.before_failed hp (w := []) (by simp)
  · obtain ⟨d, taken, htaken⟩ := List.exists_cons_of_ne_nil hnil
    obtain ⟨x, kind, hx⟩ := (completed_of_error hp).resolve_left hnil
    rw [htaken, List.cons_append] at hinput hx
    have hlast := Lexed.single hx (ends_before_blank (w := []) kind _ (by simp)) (0 + front.length)
    have hd : ∀ b ∈ (d :: (taken ++ x) ++ ([] : List Char)).head?, b = c := by
      intro b hb
      cases hb
      exact (List.cons.inj hinput).1
    have hall := (h.before_failed hp hd).append hlast
    rw [← List.cons_append, ← htaken, ← List.append_assoc, ← String.toList_ofList (l := _ ++ x)]
      at hall
    exact ⟨x, _, tokenize_of_lexed hall⟩

lemma cons_of_append_cons {p y r : List Char} {c d : Char} (h : p ++ d :: y = c :: r)
    (z : List Char) : ∃ z', p ++ d :: z = c :: z' := by
  cases p with
  | nil =>
    cases h
    exact ⟨z, rfl⟩
  | cons b p =>
    cases h
    exact ⟨p ++ d :: z, rfl⟩

/-- The error of a source is that of every source with the same characters up to the one at which
the scanner fails. -/
lemma error_of_take_eq {source other : String} {e : LexicalError}
    (h : tokenize source = .error e)
    (htake : source.toList.take (e.offset + 1) = other.toList.take (e.offset + 1)) :
    tokenize other = .error e := by
  obtain ⟨front, c, r, ts, hsource, hl, hc, hp, ho⟩ := tokenize_eq_error_iff.mp h
  have hinput : (token (c :: r)).taken ++ (token (c :: r)).rest = c :: r := input_token (c :: r)
  have hlength : e.offset = (front ++ (token (c :: r)).taken).length := by
    rw [ho, List.length_append]
  rw [hsource, ← hinput, ← List.append_assoc] at htake
  cases hrest : (token (c :: r)).rest with
  | nil =>
    -- Nothing stands behind what is taken, so that the other source is the same one.
    rw [hrest, List.append_nil, List.take_of_length_le (by omega)] at htake
    have hle := congrArg List.length htake
    rw [List.length_take] at hle
    have hother : source.toList = other.toList := by
      rw [hsource, ← hinput, hrest, List.append_nil, htake, List.take_of_length_le (by omega)]
    rwa [← String.toList_inj.mp hother]
  | cons d y =>
    rw [hrest, hlength, List.take_length_add_append] at htake
    have hother : other.toList = front ++ ((token (c :: r)).taken ++
        d :: other.toList.drop (e.offset + 1)) := by
      conv_lhs => rw [← List.take_append_drop (e.offset + 1) other.toList, hlength, ← htake]
      simp [hlength]
    obtain ⟨z, hz⟩ := cons_of_append_cons (hrest ▸ hinput) (other.toList.drop (e.offset + 1))
    have hfails := fails_of_error hp d (by rw [hrest]; rfl) (other.toList.drop (e.offset + 1))
    rw [hz] at hother hfails
    refine tokenize_eq_error_iff.mpr ⟨front, c, z, ts, hother, ?_, hc, ?_, ?_⟩
    · exact hl.before_failed hp (by simp)
    · exact congrArg outcome hfails
    · rw [hfails]
      exact ho

/-- A lexical error marks one character, at the end of the longest prefix of the source that some
continuation makes a source without an error. -/
theorem lexical_error_at_end_of_viable_prefix {source : String} {e : LexicalError}
    (h : tokenize source = .error e) :
    tokensOf source = .error (.reported (e.report source)) ∧
      (e.report source).offset = e.offset ∧ (e.report source).length = 1 ∧
      e.offset ≤ source.length ∧ Viable (source.toList.take e.offset) ∧
      (e.offset < source.length → ¬Viable (source.toList.take (e.offset + 1))) ∧
      (e.offset = source.length → Viable source.toList ∧ ∀ ts, tokenize source ≠ .ok ts) := by
  obtain ⟨front, c, r, ts, hsource, hl, hc, hp, ho⟩ := tokenize_eq_error_iff.mp h
  have hinput : (token (c :: r)).taken ++ (token (c :: r)).rest = c :: r := input_token (c :: r)
  have hsplit : source.toList = front ++ (token (c :: r)).taken ++ (token (c :: r)).rest := by
    rw [hsource, List.append_assoc, hinput]
  have hlength : e.offset = (front ++ (token (c :: r)).taken).length := by
    rw [ho, List.length_append]
  have htake : source.toList.take e.offset = front ++ (token (c :: r)).taken := by
    rw [hsplit, hlength, List.take_left]
  have hviable := viable_of_error hl hp
  have hle : e.offset ≤ source.length := by
    rw [← String.length_toList, hsplit, hlength]
    exact (List.prefix_append _ _).length_le
  refine ⟨?_, rfl, rfl, hle, htake ▸ hviable, fun hlt => ?_, fun heq => ⟨?_, ?_⟩⟩
  · simp only [tokensOf, h]
  · rintro ⟨y, us, hus⟩
    have hshared : (source.toList.take (e.offset + 1)).length = e.offset + 1 := by
      rw [List.length_take, String.length_toList]
      omega
    have htext : source.toList.take (e.offset + 1) =
        (String.ofList (source.toList.take (e.offset + 1) ++ y)).toList.take (e.offset + 1) := by
      rw [String.toList_ofList, List.take_left' hshared]
    rw [error_of_take_eq h htext] at hus
    cases hus
  · rwa [← htake, heq, ← String.length_toList, List.take_length] at hviable
  · rw [h]
    rintro ts ⟨⟩

/-- A sign and a zero can still become a decimal, but not in front of a semicolon. -/
theorem signed_zero_viable_up_to_semicolon :
    tokenize "x = -0;" = .error ⟨.signedZero, 6⟩ ∧ Viable "x = -0".toList ∧
      ¬Viable "x = -0;".toList := by
  have h : tokenize "x = -0;" = .error ⟨.signedZero, 6⟩ := by decide +kernel
  obtain ⟨-, -, -, -, hviable, hno, -⟩ := lexical_error_at_end_of_viable_prefix h
  exact ⟨h, hviable, hno (by decide)⟩

end FrontEnd
