import FrontEnd.Proofs.Lexical.Constant
import FrontEnd.Proofs.Lexical.Viability

/-!
# Tokens and lines

No token reaches over the end of its line, and none ends with a carriage return. Only literals have
spacing in them, and these end with their quote.
-/

namespace FrontEnd

lemma isSpace_of_isDoubleOperator {a b : Char} (h : Scan.isDoubleOperator a b = true) :
    isSpace a = false ∧ isSpace b = false := by
  simp only [Scan.isDoubleOperator, Bool.or_eq_true, Bool.and_eq_true, beq_iff_eq] at h
  rcases h with ((((h | h) | h) | h) | h) | h <;> obtain ⟨rfl, rfl⟩ := h <;> decide

/-- A token without quotes has no spacing in it. -/
lemma TokenKind.Spells.isSpace_eq_false {kind : TokenKind} {cs : List Char} (h : kind.Spells cs)
    (hc : kind ≠ .character) (hs : kind ≠ .string) : ∀ c ∈ cs, isSpace c = false := by
  cases kind with
  | identifier =>
    obtain ⟨c, r, rfl, hstart, hr⟩ := h
    intro d hd
    obtain rfl | hd := List.mem_cons.mp hd
    · simp only [isIdentifierStart, Bool.and_eq_true] at hstart
      exact Scan.isSpace_of_isWordChar hstart.1
    · have hd := hr d hd
      simp only [isIdentifierChar, Bool.or_eq_true, beq_iff_eq] at hd
      obtain hd | rfl := hd
      · exact Scan.isSpace_of_isWordChar hd
      · decide
  | integer =>
    obtain ⟨sign, ds, rfl, hsign, -, hds⟩ := integer_parts h
    intro d hd
    obtain hd | hd := List.mem_append.mp hd
    · exact (numeral_character (.inr (.inl (hsign.all_isSign d hd)))).1
    · exact (numeral_character (.inl (hds d hd))).1
  | decimal =>
    obtain ⟨sign, whole, fraction, rfl, hsign, -, hw, hf⟩ := decimal_parts h
    exact fun d hd => (numeral_character (decimal_character hsign hw hf d hd)).1
  | character => exact absurd rfl hc
  | string => exact absurd rfl hs
  | operator =>
    obtain ⟨a, b, rfl, hab⟩ | ⟨c, rfl, hc⟩ := h
    · simpa using isSpace_of_isDoubleOperator hab
    · simpa using hc.1

lemma IsItem.newline_notMem {quote : Char} {item : List Char} (h : IsItem quote item) :
    '\n' ∉ item := by
  obtain ⟨c, rfl, -, -, hc⟩ | ⟨e, rfl, he⟩ := h
  · simpa using hc.symm
  · intro hmem
    simp only [List.mem_cons, List.not_mem_nil, or_false] at hmem
    obtain hmem | rfl := hmem
    · cases hmem
    · cases he

/-- A token is inside one line. -/
theorem TokenKind.Spells.newline_notMem {kind : TokenKind} {cs : List Char} (h : kind.Spells cs) :
    '\n' ∉ cs := by
  by_cases hc : kind = .character
  · subst hc
    obtain ⟨item, rfl, hi⟩ := h
    simpa using hi.newline_notMem
  by_cases hs : kind = .string
  · subst hs
    obtain ⟨items, rfl, hi⟩ := h
    simpa using fun i hmem => (hi i hmem).newline_notMem
  · intro hmem
    cases h.isSpace_eq_false hc hs '\n' hmem

/-- A token ends with another character than a carriage return. -/
theorem TokenKind.Spells.exists_last {kind : TokenKind} {cs : List Char} (h : kind.Spells cs) :
    ∃ front c, cs = front ++ [c] ∧ c ≠ '\r' := by
  by_cases hc : kind = .character
  · subst hc
    obtain ⟨item, rfl, -⟩ := h
    exact ⟨_, _, rfl, by decide⟩
  by_cases hs : kind = .string
  · subst hs
    obtain ⟨items, rfl, -⟩ := h
    exact ⟨_, _, rfl, by decide⟩
  · have hlast := List.dropLast_concat_getLast h.ne_nil
    refine ⟨_, _, hlast.symm, fun hreturn => ?_⟩
    have hspace := h.isSpace_eq_false hc hs _ (List.getLast_mem h.ne_nil)
    rw [hreturn] at hspace
    cases hspace

/-- The characters of a token stand in the text at its offset. -/
lemma Lexed.mem {w cs : List Char} {o : Nat} {ts : List Token} (h : Lexed w o cs ts) {t : Token}
    (ht : t ∈ ts) : ∃ before after, cs = before ++ t.text.toList ++ after ∧
      t.offset = (o + before.length : Nat) ∧ t.kind.Spells t.text.toList := by
  induction h with
  | nil o => cases ht
  | @blank o c r ts hc _ ih =>
    obtain ⟨before, after, rfl, ho, hs⟩ := ih ht
    refine ⟨c :: before, after, rfl, ?_, hs⟩
    rw [ho, List.length_cons]
    omega
  | @token o p r kind ts hs he _ ih =>
    obtain rfl | ht := List.mem_cons.mp ht
    · exact ⟨[], r, by simp, by simp, by simpa using hs⟩
    · obtain ⟨before, after, rfl, ho, hs⟩ := ih ht
      refine ⟨p ++ before, after, by simp, ?_, hs⟩
      rw [ho, List.length_append]
      omega

end FrontEnd
