import FrontEnd.Proofs.Lexical.Spaced

/-!
# Text in front of other text

What a text is cut into depends on the characters behind it only as far as its last token has to end
there. So it is stated apart from them: texts that are cut into tokens can be put one behind the
other, and what follows them can be changed. Every source is such a text, or one in front of a place
at which the scanner fails.
-/

namespace FrontEnd

open Scan

/-- That a text at some offset is cut into tokens as it stands in front of other text. -/
inductive Lexed (behind : List Char) : Nat → List Char → List Token → Prop
  | nil (o : Nat) : Lexed behind o [] []
  | blank {o : Nat} {c : Char} {r : List Char} {ts : List Token} (hc : isBlank c = true)
      (h : Lexed behind (o + 1) r ts) : Lexed behind o (c :: r) ts
  | token {o : Nat} {p r : List Char} {kind : TokenKind} {ts : List Token} (hs : kind.Spells p)
      (he : Ends kind p (r ++ behind)) (h : Lexed behind (o + p.length) r ts) :
      Lexed behind o (p ++ r) (⟨kind, String.ofList p, o⟩ :: ts)

lemma Cut.tokens_after (p : Piece) (c : Cut) :
    (c.after p).tokens = p.token?.toList ++ c.tokens := by
  cases p <;> rfl

namespace Lexed

variable {w w' : List Char} {o : Nat} {cs cs' : List Char} {ts ts' : List Token}

lemma single {kind : TokenKind} {p : List Char} (hs : kind.Spells p) (he : Ends kind p w)
    (o : Nat) : Lexed w o p [⟨kind, String.ofList p, o⟩] := by
  have hnil : Lexed w (o + p.length) [] [] := .nil _
  have h := Lexed.token hs (show Ends kind p ([] ++ w) from he) hnil
  rwa [List.append_nil] at h

lemma blanks {bs : List Char} (hbs : ∀ b ∈ bs, isBlank b = true)
    (h : Lexed w (o + bs.length) cs ts) : Lexed w o (bs ++ cs) ts := by
  induction bs generalizing o with
  | nil => exact h
  | cons b bs ih =>
    rw [List.length_cons, Nat.add_comm bs.length, ← Nat.add_assoc] at h
    exact .blank (hbs b (List.mem_cons_self ..))
      (ih (fun c hc => hbs c (List.mem_cons_of_mem b hc)) h)

lemma append (h : Lexed (cs' ++ w) o cs ts) (h' : Lexed w (o + cs.length) cs' ts') :
    Lexed w o (cs ++ cs') (ts ++ ts') := by
  induction h with
  | nil o => simpa using h'
  | @blank o c r ts hc _ ih =>
    refine .blank hc (ih ?_)
    rwa [List.length_cons, ← Nat.add_assoc, Nat.add_right_comm] at h'
  | @token o p r kind ts hs he _ ih =>
    rw [List.append_assoc, List.cons_append]
    refine .token hs (by rwa [List.append_assoc]) (ih ?_)
    rwa [List.length_append, ← Nat.add_assoc] at h'

/-- What follows can be left out or changed behind its first character, unless that is a point. -/
lemma behind (h : Lexed w o cs ts)
    (hw : ∀ c ∈ w'.head?, isBlank c = true ∨ (c ∈ w.head? ∧ c ≠ '.')) : Lexed w' o cs ts := by
  induction h with
  | nil o => exact .nil o
  | blank hc _ ih => exact .blank hc ih
  | @token o p r kind ts hs he _ ih =>
    refine .token hs (he.mono ?_ ?_) ih
    · intro c hc
      cases r with
      | nil => exact (hw c hc).imp_right And.left
      | cons b r => exact .inr hc
    · rintro d f hf hd
      match r with
      | [] =>
        rcases hw '.' (by rw [show w' = _ from hf]; rfl) with hb | ⟨-, hne⟩
        · cases hb
        · exact absurd rfl hne
      | [b] =>
        injection hf with hb hf
        subst hb
        have hf : w' = d :: f := hf
        rcases hw d (by rw [hf]; rfl) with hb | ⟨hc, -⟩
        · rw [isDigit_of_isBlank hb] at hd
          cases hd
        · obtain ⟨w, rfl⟩ := List.head?_eq_some_iff.mp hc
          exact ⟨w, rfl⟩
      | a :: b :: r =>
        injection hf with ha hf
        injection hf with hb _
        subst ha hb
        exact ⟨r ++ w, rfl⟩

/-- Cutting goes on behind a text as if it stood alone. -/
lemma cut (h : Lexed w o cs ts) :
    (FrontEnd.cut o [] (cs ++ w)).problem = (FrontEnd.cut (o + cs.length) [] w).problem ∧
      (FrontEnd.cut o [] (cs ++ w)).offset = (FrontEnd.cut (o + cs.length) [] w).offset ∧
      (FrontEnd.cut o [] (cs ++ w)).tokens =
        ts ++ (FrontEnd.cut (o + cs.length) [] w).tokens := by
  induction h with
  | nil o => simp
  | @blank o c r ts hc _ ih =>
    obtain ⟨hproblem, hoffset, htokens⟩ := ih
    rw [List.cons_append, cut_blank hc, List.length_cons, Nat.add_comm r.length, ← Nat.add_assoc]
    exact ⟨hproblem, hoffset, by rw [Cut.tokens_after, htokens]; rfl⟩
  | @token o p r kind ts hs he _ ih =>
    obtain ⟨hproblem, hoffset, htokens⟩ := ih
    rw [List.append_assoc, cut_token hs (token_of_ends hs he), List.length_append, ← Nat.add_assoc]
    exact ⟨hproblem, hoffset, by rw [Cut.tokens_after, htokens]; rfl⟩

end Lexed

/-- Every text is cut into tokens up to its end, or up to a place at which the scanner fails. -/
lemma exists_lexed (o : Nat) (cs : List Char) :
    ∃ front w ts, cs = front ++ w ∧ Lexed w o front ts ∧
      (w = [] ∨ ∃ c r problem, w = c :: r ∧ isBlank c = false ∧
        (Scan.token w).outcome = .error problem) := by
  induction hn : cs.length using Nat.strong_induction_on generalizing o cs with
  | _ n ih =>
    cases cs with
    | nil => exact ⟨[], [], [], rfl, .nil o, .inl rfl⟩
    | cons c r =>
      by_cases hc : isBlank c = true
      · rw [List.length_cons] at hn
        obtain ⟨front, w, ts, rfl, h, hw⟩ := ih r.length (by omega) (o + 1) r rfl
        exact ⟨c :: front, w, ts, rfl, .blank hc h, hw⟩
      · cases ho : (Scan.token (c :: r)).outcome with
        | error problem =>
          exact ⟨[], c :: r, [], rfl, .nil o, .inr ⟨c, r, problem, rfl, by simpa using hc, ho⟩⟩
        | ok kind =>
          have hlt := length_rest_token_lt ho
          have hs := spells_token ho
          have hinput : (Scan.token (c :: r)).taken ++ (Scan.token (c :: r)).rest = c :: r :=
            input_token (c :: r)
          have hdone : Scan.token ((Scan.token (c :: r)).taken ++ (Scan.token (c :: r)).rest) =
              done (Scan.token (c :: r)).taken (Scan.token (c :: r)).rest kind := by
            rw [hinput, done, ← ho]
          obtain ⟨front, w, ts, hrest, h, hw⟩ :=
            ih _ (by omega) (o + (Scan.token (c :: r)).taken.length) (Scan.token (c :: r)).rest rfl
          have he := ends_of_token hdone
          rw [hrest] at he hinput
          exact ⟨_, w, _, by rw [List.append_assoc, hinput], .token hs he h, hw⟩

lemma tokenize_of_lexed {source : String} {ts : List Token} (h : Lexed [] 0 source.toList ts) :
    tokenize source = .ok ts := by
  obtain ⟨hproblem, -, htokens⟩ := h.cut
  rw [List.append_nil, cut_nil] at hproblem htokens
  have htokens : (cut 0 [] source.toList).tokens = ts := by simpa [Cut.tokens] using htokens
  simp only [tokenize, hproblem, htokens]

/-- The cut of a text at whose start the scanner fails. -/
lemma cut_failed {c : Char} {r : List Char} (hc : isBlank c = false) {problem : LexicalProblem}
    (h : (Scan.token (c :: r)).outcome = .error problem) (o : Nat) :
    cut o [] (c :: r) =
      ⟨[], o, (Scan.token (c :: r)).taken, (Scan.token (c :: r)).rest, some problem⟩ :=
  cut_of_error hc h o []

lemma error_of_lexed {source : String} {front r : List Char} {c : Char} {ts : List Token}
    {problem : LexicalProblem} (hsource : source.toList = front ++ c :: r)
    (h : Lexed (c :: r) 0 front ts) (hc : isBlank c = false)
    (hp : (Scan.token (c :: r)).outcome = .error problem) :
    tokenize source =
      .error ⟨problem, front.length + (Scan.token (c :: r)).taken.length⟩ := by
  obtain ⟨hproblem, hoffset, -⟩ := h.cut
  rw [← hsource, cut_failed hc hp, Nat.zero_add] at hproblem hoffset
  simp only [Cut.offset] at hoffset
  simp only [tokenize, hproblem, Cut.offset, hoffset]

/-- A source without an error is a text that is cut into tokens. -/
theorem tokenize_eq_ok_iff {source : String} {ts : List Token} :
    tokenize source = .ok ts ↔ Lexed [] 0 source.toList ts := by
  refine ⟨fun h => ?_, tokenize_of_lexed⟩
  obtain ⟨front, w, us, hsource, hl, rfl | ⟨c, r, problem, rfl, hc, hp⟩⟩ :=
    exists_lexed 0 source.toList
  · rw [List.append_nil] at hsource
    subst hsource
    rw [tokenize_of_lexed hl] at h
    cases h
    exact hl
  · rw [error_of_lexed hsource hl hc hp] at h
    cases h

/-- A source with an error is such a text up to the token in which the scanner fails. -/
theorem tokenize_eq_error_iff {source : String} {e : LexicalError} :
    tokenize source = .error e ↔
      ∃ front c r ts, source.toList = front ++ c :: r ∧ Lexed (c :: r) 0 front ts ∧
        isBlank c = false ∧ (Scan.token (c :: r)).outcome = .error e.problem ∧
        e.offset = front.length + (Scan.token (c :: r)).taken.length := by
  constructor
  · intro h
    obtain ⟨front, w, ts, hsource, hl, rfl | ⟨c, r, problem, rfl, hc, hp⟩⟩ :=
      exists_lexed 0 source.toList
    · rw [List.append_nil] at hsource
      subst hsource
      rw [tokenize_of_lexed hl] at h
      cases h
    · rw [error_of_lexed hsource hl hc hp] at h
      cases h
      exact ⟨front, c, r, ts, hsource, hl, hc, hp, rfl⟩
  · rintro ⟨front, c, r, ts, hsource, hl, hc, hp, ho⟩
    rw [error_of_lexed hsource hl hc hp, ← ho]

end FrontEnd
