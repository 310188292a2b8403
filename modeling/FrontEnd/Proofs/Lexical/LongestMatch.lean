import FrontEnd.Proofs.Lexical.Language
import FrontEnd.Token.Stream

/-!
# Longest match

Cutting a source into tokens is the scan that goes from left to right, passes over blanks and
otherwise takes the longest prefix that lies in some token language. The cut fails exactly where
that scan comes to a place with no such prefix, or to a broken zero.
-/

namespace FrontEnd

/-- A text in the language of some kind of token. -/
def IsLexeme (cs : List Char) : Prop := ∃ kind : TokenKind, kind.Spells cs

/-- The longest prefix of a text that is a token. -/
structure LongestLexeme (cs p : List Char) : Prop where
  begins : p <+: cs
  lexeme : IsLexeme p
  longest : ∀ q, q <+: cs → IsLexeme q → q.length ≤ p.length

/-- A text at which no token can be taken. -/
def NoToken (cs : List Char) : Prop := (∀ p, p <+: cs → ¬IsLexeme p) ∨ BrokenZero cs

/-- The scan from an offset passes over the whole text and takes these tokens. -/
inductive LongestScan : Nat → List Char → List Token → Prop
  | nil (o : Nat) : LongestScan o [] []
  | blank {o : Nat} {c : Char} {r : List Char} {ts : List Token} (hc : isBlank c = true)
      (h : LongestScan (o + 1) r ts) : LongestScan o (c :: r) ts
  | token {o : Nat} {p r : List Char} {kind : TokenKind} {ts : List Token}
      (hp : LongestLexeme (p ++ r) p) (hk : kind.Spells p) (hb : ¬BrokenZero (p ++ r))
      (h : LongestScan (o + p.length) r ts) :
      LongestScan o (p ++ r) (⟨kind, String.ofList p, o⟩ :: ts)

/-- The scan comes to a place at which no token can be taken. -/
inductive ScanFails : List Char → Prop
  | here {c : Char} {r : List Char} (hc : isBlank c = false) (h : NoToken (c :: r)) :
      ScanFails (c :: r)
  | blank {c : Char} {r : List Char} (hc : isBlank c = true) (h : ScanFails r) :
      ScanFails (c :: r)
  | token {p r : List Char} (hp : LongestLexeme (p ++ r) p) (h : ScanFails r) : ScanFails (p ++ r)

/-- Tokens from some offset on in a source: one behind the other, each with its own text, in the
language of its kind and as long as possible, and nothing but blanks outside them. -/
structure LongestMatch (source : List Char) (start : Nat) (ts : List Token) : Prop where
  apart : ts.Pairwise fun t u => t.stop ≤ u.offset
  inside : ∀ t ∈ ts, start ≤ t.offset ∧ t.offset < t.stop ∧ t.stop ≤ source.length
  slice : ∀ t ∈ ts, t.text.toList = (source.drop t.offset.toNat).take t.length
  spelled : ∀ t ∈ ts, t.kind.Spells t.text.toList
  longest : ∀ t ∈ ts, LongestLexeme (source.drop t.offset.toNat) t.text.toList
  blanks : ∀ i (h : i < source.length), start ≤ i →
    (∀ t ∈ ts, ¬(t.offset ≤ i ∧ (i : Int) < t.stop)) → isBlank source[i] = true

lemma TokenKind.Spells.ne_nil {kind : TokenKind} {cs : List Char} (h : kind.Spells cs) :
    cs ≠ [] := by
  rintro rfl
  have ho := congrArg Scan.outcome (Scan.token_before_blank h (w := []) (by simp))
  cases ho

/-- A successful scan takes the longest prefix that is a token. -/
lemma longestLexeme_token {cs : List Char} {kind : TokenKind}
    (h : (Scan.token cs).outcome = .ok kind) : LongestLexeme cs (Scan.token cs).taken where
  begins := ⟨_, Scan.input_token cs⟩
  lexeme := ⟨kind, Scan.spells_token h⟩
  longest := by
    rintro q ⟨w, rfl⟩ ⟨k, hq⟩
    rcases Scan.covers_or_broken hq w with hb | ⟨k', -, hl⟩
    · obtain ⟨problem, he⟩ := Scan.error_of_brokenZero hb
      rw [he] at h
      cases h
    · exact hl

/-- A scan fails exactly where no token can be taken. -/
lemma noToken_iff_error {cs : List Char} :
    NoToken cs ↔ ∃ problem, (Scan.token cs).outcome = .error problem := by
  constructor
  · rintro (hn | hb)
    · cases ho : (Scan.token cs).outcome with
      | error problem => exact ⟨problem, rfl⟩
      | ok kind =>
        have hl := longestLexeme_token ho
        exact absurd hl.lexeme (hn _ hl.begins)
    · exact Scan.error_of_brokenZero hb
  · rintro ⟨problem, he⟩
    by_cases hb : BrokenZero cs
    · exact .inr hb
    · refine .inl ?_
      rintro p ⟨w, rfl⟩ ⟨k, hp⟩
      rcases Scan.covers_or_broken hp w with hb' | ⟨k', ho, -⟩
      · exact hb hb'
      · rw [he] at ho
        cases ho

/-- A cut without a problem is a complete scan. -/
lemma longestScan_cut {o : Nat} {pending cs : List Char} (hp : pending = [])
    (h : (cut o pending cs).problem = none) : LongestScan o cs (cut o pending cs).tokens := by
  fun_induction cut o pending cs with
  | case1 => exact .nil _
  | case2 o pending c r hc run ih =>
    subst hp
    have hs := ih rfl h
    exact .blank hc hs
  | case3 o pending c r hc scan kind hk run ih =>
    subst hp
    have hi : scan.taken ++ scan.rest = c :: r := Scan.input_token (c :: r)
    have hs := ih rfl h
    have hb : ¬BrokenZero (c :: r) := by
      intro hb
      obtain ⟨problem, he⟩ := Scan.error_of_brokenZero hb
      rw [show (Scan.token (c :: r)).outcome = .ok kind from hk] at he
      cases he
    have hl : LongestLexeme (c :: r) scan.taken := longestLexeme_token hk
    rw [← hi] at hb hl ⊢
    exact .token hl (Scan.spells_token hk) hb hs
  | case4 => cases h

/-- A cut with a problem has come to a place at which no token can be taken. -/
lemma scanFails_cut {o : Nat} {pending cs : List Char} {problem : LexicalProblem}
    (h : (cut o pending cs).problem = some problem) : ScanFails cs := by
  fun_induction cut o pending cs with
  | case1 => cases h
  | case2 o pending c r hc run ih => exact .blank hc (ih h)
  | case3 o pending c r hc scan kind hk run ih =>
    have hi : scan.taken ++ scan.rest = c :: r := Scan.input_token (c :: r)
    have hl : LongestLexeme (c :: r) scan.taken := longestLexeme_token hk
    rw [← hi] at hl ⊢
    exact .token hl (ih h)
  | case4 o pending c r hc scan p hp =>
    exact .here (by simpa using hc) (noToken_iff_error.mpr ⟨p, hp⟩)

namespace LongestMatch

lemma nil (source : List Char) : LongestMatch source source.length [] := by
  refine ⟨.nil, by simp, by simp, by simp, by simp, ?_⟩
  intro i hi ho
  omega

lemma blank {source : List Char} {o : Nat} {ts : List Token} (ho : o < source.length)
    (hc : isBlank source[o] = true) (h : LongestMatch source (o + 1) ts) :
    LongestMatch source o ts := by
  refine ⟨h.apart, ?_, h.slice, h.spelled, h.longest, ?_⟩
  · intro t ht
    obtain ⟨h1, h2, h3⟩ := h.inside t ht
    exact ⟨by omega, h2, h3⟩
  · intro i hi hoi hout
    by_cases he : i = o
    · subst he
      exact hc
    · exact h.blanks i hi (by omega) hout

/-- A longest token in front of tokens that are so too. -/
lemma token {source p : List Char} {o : Nat} {kind : TokenKind} {ts : List Token}
    (hp : LongestLexeme (source.drop o) p) (hk : kind.Spells p)
    (h : LongestMatch source (o + p.length) ts) :
    LongestMatch source o (⟨kind, String.ofList p, o⟩ :: ts) := by
  have hne := List.length_pos_iff.mpr hk.ne_nil
  have hlength : p.length ≤ source.length - o := by
    have := hp.begins.length_le
    rwa [List.length_drop] at this
  have hstop : (⟨kind, String.ofList p, o⟩ : Token).stop = o + p.length := by
    simp [Token.stop, Token.length]
  refine ⟨?_, ?_, ?_, ?_, ?_, ?_⟩
  · refine List.pairwise_cons.mpr ⟨?_, h.apart⟩
    intro u hu
    rw [hstop]
    exact_mod_cast (h.inside u hu).1
  · refine List.forall_mem_cons.mpr ⟨?_, fun t ht => ?_⟩
    · rw [hstop]
      refine ⟨Int.le_refl _, ?_, ?_⟩
      · dsimp only
        omega
      · omega
    · obtain ⟨h1, h2, h3⟩ := h.inside t ht
      exact ⟨by omega, h2, h3⟩
  · refine List.forall_mem_cons.mpr ⟨?_, h.slice⟩
    simpa [Token.length] using List.prefix_iff_eq_take.mp hp.begins
  · refine List.forall_mem_cons.mpr ⟨?_, h.spelled⟩
    simpa using hk
  · refine List.forall_mem_cons.mpr ⟨?_, h.longest⟩
    simpa using hp
  · intro i hi ho hout
    obtain ⟨hfirst, hrest⟩ := List.forall_mem_cons.mp hout
    rw [hstop] at hfirst
    dsimp only at hfirst
    exact h.blanks i hi (by omega) hrest

end LongestMatch

/-- A complete scan of the text behind `front` gives tokens with all that is asked of them. -/
lemma LongestScan.longestMatch {o : Nat} {cs : List Char} {ts : List Token}
    (h : LongestScan o cs ts) (front : List Char) (hf : front.length = o) :
    LongestMatch (front ++ cs) o ts := by
  induction h generalizing front with
  | nil o =>
    rw [List.append_nil, ← hf]
    exact .nil front
  | @blank o c r ts hc h ih =>
    have hm := ih (front ++ [c]) (by simp [hf])
    rw [List.append_assoc, List.singleton_append] at hm
    have ho : o < (front ++ c :: r).length := by
      rw [List.length_append, List.length_cons]
      omega
    exact hm.blank ho (by simpa [← hf] using hc)
  | @token o p r kind ts hp hk hb h ih =>
    have hm := ih (front ++ p) (by simp [hf])
    rw [List.append_assoc] at hm
    have hdrop : (front ++ (p ++ r)).drop o = p ++ r := by rw [← hf, List.drop_left]
    exact hm.token (by rwa [hdrop]) hk

/-- No token starts with a blank. -/
lemma TokenKind.Spells.not_blank {kind : TokenKind} {c : Char} {r : List Char}
    (h : kind.Spells (c :: r)) : isBlank c = false := by
  by_contra hc
  have hb : isBlank c = true := by simpa using hc
  have hs := Scan.token_before_blank h (w := []) (by simp)
  rw [List.append_nil] at hs
  have ho : (Scan.token (c :: r)).outcome = .error .noOperator := by
    have hspace := isSpace_of_isBlank hb
    simp only [isBlank, Bool.or_eq_true, beq_iff_eq] at hb
    cases r with
    | nil => rcases hb with ((rfl | rfl) | rfl) | rfl <;> rfl
    | cons d r => rcases hb with ((rfl | rfl) | rfl) | rfl <;> rfl
  rw [hs] at ho
  cases ho

lemma LongestLexeme.unique {cs p q : List Char} (hp : LongestLexeme cs p)
    (hq : LongestLexeme cs q) : p = q := by
  have h1 := hp.longest q hq.begins hq.lexeme
  have h2 := hq.longest p hp.begins hp.lexeme
  exact (List.prefix_of_prefix_length_le hp.begins hq.begins h2).eq_of_length (by omega)

lemma ScanFails.inversion {cs : List Char} (h : ScanFails cs) :
    NoToken cs ∨ (∃ c r, cs = c :: r ∧ isBlank c = true ∧ ScanFails r) ∨
      ∃ p r, cs = p ++ r ∧ LongestLexeme cs p ∧ ScanFails r := by
  cases h with
  | here hc h => exact .inl h
  | blank hc h => exact .inr (.inl ⟨_, _, rfl, hc, h⟩)
  | token hp h => exact .inr (.inr ⟨_, _, rfl, hp, h⟩)

/-- A complete scan comes to no place at which no token can be taken. -/
lemma LongestScan.not_fails {o : Nat} {cs : List Char} {ts : List Token}
    (h : LongestScan o cs ts) : ¬ScanFails cs := by
  induction h with
  | nil o =>
    intro hf
    generalize hcs : ([] : List Char) = cs at hf
    cases hf with
    | here => cases hcs
    | blank => cases hcs
    | token hp h =>
      obtain ⟨k, hk⟩ := hp.lexeme
      exact hk.ne_nil (List.append_eq_nil_iff.mp hcs.symm).1
  | @blank o c r ts hc h ih =>
    intro hf
    generalize hcs : c :: r = cs at hf
    cases hf with
    | here hn => cases hcs; rw [hc] at hn; cases hn
    | blank _ h => cases hcs; exact ih h
    | @token p r' hp h =>
      obtain ⟨k, hk⟩ := hp.lexeme
      cases p with
      | nil => exact hk.ne_nil rfl
      | cons d p =>
        cases hcs
        rw [hk.not_blank] at hc
        cases hc
  | @token o p r kind ts hp hk hb h ih =>
    intro hf
    rcases hf.inversion with (hn | hn) | ⟨c, r', he, hc, -⟩ | ⟨q, r', he, hq, h⟩
    · exact hn p hp.begins hp.lexeme
    · exact hb hn
    · cases p with
      | nil => exact hk.ne_nil rfl
      | cons d p =>
        cases he
        rw [hk.not_blank] at hc
        cases hc
    · obtain rfl := hp.unique hq
      exact ih (List.append_cancel_left he ▸ h)

/-- The lexer is a longest-match scanner. What it cuts a source into are tokens one behind the
other, each with its own text, in the language of its kind and the longest that can be taken where
it starts, with nothing but blanks outside them; and it fails exactly when the scan comes to a
place at which no token can be taken. -/
theorem tokenize_longest_match (source : String) :
    (∀ ts, tokenize source = .ok ts → LongestMatch source.toList 0 ts) ∧
      ((∃ e, tokenize source = .error e) ↔ ScanFails source.toList) := by
  have hok : ∀ ts, tokenize source = .ok ts → LongestScan 0 source.toList ts := by
    intro ts h
    unfold tokenize at h
    dsimp only at h
    split at h
    · cases h
    · next hp =>
      cases h
      exact longestScan_cut rfl hp
  refine ⟨fun ts h => (hok ts h).longestMatch [] rfl, ?_, ?_⟩
  · rintro ⟨e, h⟩
    unfold tokenize at h
    dsimp only at h
    split at h
    · next problem hp => exact scanFails_cut hp
    · cases h
  · intro hf
    cases h : tokenize source with
    | error e => exact ⟨e, rfl⟩
    | ok ts => exact absurd hf (hok ts h).not_fails

end FrontEnd
