import FrontEnd.Proofs.Lexical.Viability

/-!
# How far the lexer looks

Whether a token ends where it does is settled by the two characters behind it. So two sources that
begin alike have the same tokens up to there, and an error inside what they share is the error of
both.
-/

namespace FrontEnd

open Scan

/-- Whether a token ends at least two characters in front of a place. -/
def Token.settled (p : Nat) (t : Token) : Bool := t.stop + 2 ≤ p

lemma stop_of_ofList (kind : TokenKind) (p : List Char) (o : Nat) :
    (Token.mk kind (String.ofList p) o).stop = o + p.length := by
  simp [Token.stop, Token.length]

lemma settled_iff {p : Nat} {t : Token} : t.settled p = true ↔ t.stop + 2 ≤ p := by
  simp [Token.settled]

/-- The end of a token depends on the two characters behind it. -/
lemma Scan.Ends.of_take_eq {kind : TokenKind} {p w w' : List Char} (h : Ends kind p w)
    (hw : w.take 2 = w'.take 2) : Ends kind p w' := by
  apply h.mono
  · intro c hc
    cases w with
    | nil => cases w' <;> simp_all
    | cons b w =>
      cases w' with
      | nil => cases hc
      | cons b' w' =>
        right
        simp only [List.take_succ_cons, List.cons.injEq] at hw
        rwa [List.head?_cons, hw.1]
  · rintro d f rfl -
    match w, hw with
    | _ :: _ :: f', hw =>
      simp only [List.take_succ_cons, List.take_zero, List.cons.injEq, and_true] at hw
      exact ⟨f', by rw [hw.1, hw.2]⟩

namespace Lexed

variable {w cs : List Char} {o : Nat} {ts : List Token}

lemma of_blank {c : Char} {r : List Char} (hc : isBlank c = true) (h : Lexed w o (c :: r) ts) :
    Lexed w (o + 1) r ts := by
  generalize hcs : c :: r = cs at h
  cases h with
  | nil => cases hcs
  | blank _ h =>
    cases hcs
    exact h
  | @token o p r' kind ts hs he h =>
    cases p with
    | nil => exact absurd rfl hs.ne_nil
    | cons d p =>
      cases hcs
      rw [hs.not_blank] at hc
      cases hc

/-- A text with a token in front is cut into this token and those of the others behind it. -/
lemma of_token {kind : TokenKind} {p r : List Char} (hs : kind.Spells p)
    (he : Ends kind p (r ++ w)) (h : Lexed w o (p ++ r) ts) :
    ∃ us, ts = ⟨kind, String.ofList p, o⟩ :: us ∧ Lexed w (o + p.length) r us := by
  generalize hcs : p ++ r = cs at h
  cases h with
  | nil => exact absurd (List.append_eq_nil_iff.mp hcs).1 hs.ne_nil
  | blank hc _ =>
    cases p with
    | nil => exact absurd rfl hs.ne_nil
    | cons d p =>
      cases hcs
      rw [hs.not_blank] at hc
      cases hc
  | @token o p' r' kind' ts hs' he' h =>
    have hdone := token_of_ends hs he
    rw [← List.append_assoc, hcs, List.append_assoc, token_of_ends hs' he'] at hdone
    injection hdone with hp hr hkind
    cases hp
    cases hkind
    cases List.append_cancel_right hr
    exact ⟨ts, rfl, h⟩

lemma offset_lt_stop (h : Lexed w o cs ts) : ∀ t ∈ ts, o < t.stop := by
  induction h with
  | nil o => exact nofun
  | blank _ _ ih =>
    intro t ht
    have hlt := ih t ht
    omega
  | @token o p r kind ts hs _ _ ih =>
    have hpos := List.length_pos_iff.mpr hs.ne_nil
    refine List.forall_mem_cons.mpr ⟨?_, fun t ht => ?_⟩
    · rw [stop_of_ofList]
      omega
    · have hlt := ih t ht
      omega

lemma not_settled {p : Nat} (h : Lexed w o cs ts) (hp : p ≤ o + 2) :
    ts.filter (Token.settled p) = [] := by
  apply List.filter_eq_nil_iff.mpr
  intro t ht
  rw [settled_iff]
  have hlt := h.offset_lt_stop t ht
  omega

/-- The settled tokens of a text are the first ones of any text that begins alike. -/
lemma settled_prefix {cs' : List Char} {ts' : List Token} {n : Nat} (h : Lexed [] o cs ts)
    (h' : Lexed [] o cs' ts') (hn : cs.take n = cs'.take n) :
    ts.filter (Token.settled (o + n)) <+: ts' := by
  induction h generalizing cs' ts' n with
  | nil o => exact List.nil_prefix
  | @blank o c r ts hc h ih =>
    cases n with
    | zero =>
      rw [h.not_settled (by omega)]
      exact List.nil_prefix
    | succ n =>
      cases cs' with
      | nil => cases hn
      | cons c' r' =>
        obtain ⟨rfl, hr⟩ := List.cons_eq_cons.mp hn
        rw [Nat.add_comm n, ← Nat.add_assoc]
        exact ih (h'.of_blank hc) hr
  | @token o p r kind ts hs he h ih =>
    by_cases hlt : p.length + 2 ≤ n
    · -- Both texts have the two characters that settle the token.
      have hsplit : cs' = p ++ cs'.drop p.length := by
        have htake := congrArg (List.take p.length) hn
        rw [List.take_take, List.take_take, Nat.min_eq_left (by omega), List.take_left] at htake
        conv_lhs => rw [← List.take_append_drop p.length cs', ← htake]
      have hr : r.take (n - p.length) = (cs'.drop p.length).take (n - p.length) := by
        have hdrop := congrArg (List.drop p.length) hn
        rwa [List.drop_take, List.drop_take, List.drop_left] at hdrop
      have htwo : (r ++ []).take 2 = (cs'.drop p.length ++ []).take 2 := by
        have htake := congrArg (List.take 2) hr
        rw [List.take_take, List.take_take, Nat.min_eq_left (by omega)] at htake
        simpa using htake
      rw [hsplit] at h'
      obtain ⟨us, rfl, hus⟩ := h'.of_token hs (he.of_take_eq htwo)
      have hsum : o + n = o + p.length + (n - p.length) := by omega
      rw [hsum]
      have hprefix := ih hus hr
      rw [List.filter_cons_of_pos]
      · exact (List.prefix_cons_inj _).mpr hprefix
      · rw [settled_iff, stop_of_ofList]
        omega
    · rw [List.filter_cons_of_neg, h.not_settled (by omega)]
      · exact List.nil_prefix
      · rw [settled_iff, stop_of_ofList]
        omega

end Lexed

/-- The settled tokens of sources that begin alike are the same. -/
lemma settled_eq {source other : String} {ts us : List Token} {p : Nat}
    (h : source.toList.take p = other.toList.take p) (hts : tokenize source = .ok ts)
    (hus : tokenize other = .ok us) :
    ts.filter (Token.settled p) = us.filter (Token.settled p) := by
  have hs := tokenize_eq_ok_iff.mp hts
  have ho := tokenize_eq_ok_iff.mp hus
  have hleft := (hs.settled_prefix ho h).filter (Token.settled p)
  have hright := (ho.settled_prefix hs h.symm).filter (Token.settled p)
  rw [Nat.zero_add, List.filter_filter] at hleft hright
  simp only [Bool.and_self] at hleft hright
  exact hleft.eq_of_length_le hright.length_le

/-- The lexer never looks farther than two characters behind a token, and no farther than at the
character at which it fails. Sources that agree on their first characters have the same tokens among
those that end two characters earlier, and if one of them has an error there, they have the same
error. -/
theorem lexer_looks_two_characters_ahead {source other : String} {p : Nat}
    (h : source.toList.take p = other.toList.take p) :
    (∀ ts us, tokenize source = .ok ts → tokenize other = .ok us →
      ts.filter (Token.settled p) = us.filter (Token.settled p)) ∧
    ∀ e, tokenize source = .error e → e.offset < p →
      tokenize other = .error e ∧ tokensOf other = .error (.reported (e.report other)) := by
  constructor
  · intro ts us hts hus
    exact settled_eq h hts hus
  · intro e he hlt
    have htake := congrArg (List.take (e.offset + 1)) h
    rw [List.take_take, List.take_take, Nat.min_eq_left hlt] at htake
    have hother := error_of_take_eq he htake
    exact ⟨hother, by simp only [tokensOf, hother]⟩

/-- The integer in front of a point is settled by the character behind the point only. -/
theorem decimal_or_member_behind_assignment :
    ([⟨.identifier, "a", 0⟩, ⟨.operator, "=", 2⟩, ⟨.decimal, "12.5", 4⟩] : List Token).filter
        (Token.settled 7) =
      [⟨.identifier, "a", 0⟩, ⟨.operator, "=", 2⟩, ⟨.integer, "12", 4⟩, ⟨.operator, ".", 6⟩,
        ⟨.identifier, "b", 7⟩].filter (Token.settled 7) ∧
    tokenize "a = -0; 'b'" = .error ⟨.signedZero, 6⟩ := by
  have hshared : "a = 12.5".toList.take 7 = "a = 12.b".toList.take 7 := by decide
  have hdecimal : tokenize "a = 12.5" = .ok [⟨.identifier, "a", 0⟩, ⟨.operator, "=", 2⟩,
      ⟨.decimal, "12.5", 4⟩] := by decide +kernel
  have hmember : tokenize "a = 12.b" = .ok [⟨.identifier, "a", 0⟩, ⟨.operator, "=", 2⟩,
      ⟨.integer, "12", 4⟩, ⟨.operator, ".", 6⟩, ⟨.identifier, "b", 7⟩] := by decide +kernel
  have hzero : tokenize "a = -0; \"" = .error ⟨.signedZero, 6⟩ := by decide +kernel
  have hbegin : "a = -0; \"".toList.take 7 = "a = -0; 'b'".toList.take 7 := by decide
  constructor
  · exact (lexer_looks_two_characters_ahead hshared).1 _ _ hdecimal hmember
  · exact ((lexer_looks_two_characters_ahead hbegin).2 _ hzero (by decide)).1

end FrontEnd
