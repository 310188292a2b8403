import FrontEnd.Proofs.Lexical.Lexed

/-!
# Tokens of sources one behind the other

A source behind another one and at least one blank is cut as it is cut alone: its tokens, or the
place of its error, are moved by what stands in front.
-/

namespace FrontEnd

/-- A token of a source that stands behind some number of characters. -/
def Token.behind (n : Nat) (t : Token) : Token := { t with offset := t.offset + n }

/-- What tokens a text is cut into does not depend on its place. -/
lemma Lexed.moved {w cs : List Char} {o : Nat} {ts : List Token} (h : Lexed w o cs ts) (n : Nat) :
    Lexed w (o + n) cs (ts.map (Token.behind n)) := by
  induction h with
  | nil o => exact .nil _
  | @blank o c r ts hc _ ih =>
    rw [Nat.add_right_comm] at ih
    exact .blank hc ih
  | @token o p r kind ts hs he _ ih =>
    rw [Nat.add_right_comm] at ih
    exact .token hs he ih

section

variable {first blanks : String} {ts : List Token} (h : tokenize first = .ok ts)
  (hne : blanks ≠ "") (hblanks : ∀ b ∈ blanks.toList, isBlank b = true)

include h hne hblanks

/-- A text is cut behind a source and blanks as it is cut alone. -/
lemma Lexed.behind_source {w cs : List Char} {us : List Token} (hl : Lexed w 0 cs us) :
    Lexed w 0 (first.toList ++ (blanks.toList ++ cs))
      (ts ++ us.map (Token.behind (first.length + blanks.length))) := by
  have hsecond : Lexed w (0 + first.toList.length) (blanks.toList ++ cs)
      (us.map (Token.behind (first.length + blanks.length))) := by
    have hmoved := hl.moved (first.length + blanks.length)
    rw [← String.length_toList, ← String.length_toList, ← Nat.add_assoc] at hmoved
    rw [← String.length_toList, ← String.length_toList]
    exact hmoved.blanks hblanks
  refine ((tokenize_eq_ok_iff.mp h).behind fun c hc => ?_).append hsecond
  obtain ⟨b, bs, hbs⟩ := List.exists_cons_of_ne_nil (mt String.toList_eq_nil_iff.mp hne)
  rw [hbs] at hc
  cases hc
  exact .inl (hblanks _ (by rw [hbs]; exact List.mem_cons_self ..))

/-- The tokens of a source behind another one. -/
theorem tokenize_append {second : String} {us : List Token} (h' : tokenize second = .ok us) :
    tokenize (first ++ blanks ++ second) =
      .ok (ts ++ us.map (Token.behind (first.length + blanks.length))) := by
  refine tokenize_of_lexed ?_
  rw [String.toList_append, String.toList_append, List.append_assoc]
  exact (tokenize_eq_ok_iff.mp h').behind_source h hne hblanks

/-- The error of a source behind one that has none. -/
theorem tokenize_append_error {second : String} {e : LexicalError}
    (h' : tokenize second = .error e) :
    tokenize (first ++ blanks ++ second) =
      .error ⟨e.problem, first.length + blanks.length + e.offset⟩ := by
  obtain ⟨front, c, r, us, hsecond, hl, hc, hp, ho⟩ := tokenize_eq_error_iff.mp h'
  refine tokenize_eq_error_iff.mpr ⟨first.toList ++ (blanks.toList ++ front), c, r, _, ?_,
    hl.behind_source h hne hblanks, hc, hp, ?_⟩
  · rw [String.toList_append, String.toList_append, hsecond]
    simp only [List.append_assoc]
  · simp only [ho, List.length_append, String.length_toList, Nat.add_assoc]

end

end FrontEnd
