import FrontEnd.Token.Scan

/-!
# What scanners keep

Every scanner splits its input into what it took and what it left, and a successful one has taken
at least one character.
-/

namespace FrontEnd.Scan

variable {α : Type}

@[simp] theorem input_done (taken rest : List Char) (a : α) :
    (done taken rest a).input = taken ++ rest := rfl

@[simp] theorem input_failed (taken rest : List Char) (p : LexicalProblem) :
    (failed taken rest p : Scan α).input = taken ++ rest := rfl

@[simp] theorem input_after (cs : List Char) (s : Scan α) :
    (s.after cs).input = cs ++ s.input := by
  simp [after, input]

theorem input_identifier (cs : List Char) : (identifier cs).input = cs := by
  unfold identifier
  cases cs with
  | nil => rfl
  | cons c r => dsimp only; split <;> simp

theorem input_zero (signed : Bool) (r : List Char) : (zero signed r).input = '0' :: r := by
  unfold zero
  split
  · split <;> simp
  · split <;> simp

theorem input_positive (cs : List Char) : (positive cs).input = cs := by
  have h := List.takeWhile_append_dropWhile (p := isDigit) (l := cs)
  unfold positive
  dsimp only
  split
  · next f hf =>
    rw [hf] at h
    split <;> simp [h]
  · simp [h]

theorem input_unsigned (signed : Bool) (cs : List Char) : (unsigned signed cs).input = cs := by
  unfold unsigned
  cases cs with
  | nil => rfl
  | cons c r =>
    dsimp only
    split
    · next h => rw [input_zero, h]
    · split
      · exact input_positive _
      · simp

theorem input_number (cs : List Char) : (number cs).input = cs := by
  unfold number
  cases cs with
  | nil => rfl
  | cons c r =>
    dsimp only
    split
    · split <;> simp [input_unsigned]
    · exact input_unsigned _ _

theorem input_escape (cs : List Char) : (escape cs).input = cs := by
  unfold escape
  cases cs with
  | nil => rfl
  | cons c r => dsimp only; split <;> simp

theorem input_closingQuote (cs : List Char) : (closingQuote cs).input = cs := by
  unfold closingQuote
  cases cs with
  | nil => rfl
  | cons c r => dsimp only; split <;> simp

theorem input_characterBody (cs : List Char) : (characterBody cs).input = cs := by
  unfold characterBody
  cases cs with
  | nil => rfl
  | cons c r =>
    have h := input_escape r
    simp only [input] at h
    dsimp only
    split
    · simp
    · split
      · simp
      · split
        · split <;> simp [input_closingQuote, h]
        · simp [input_closingQuote]

theorem input_character (cs : List Char) : (character cs).input = cs := by
  unfold character
  cases cs with
  | nil => rfl
  | cons c r => dsimp only; split <;> simp [input_characterBody]

theorem input_stringBody (cs : List Char) : (stringBody cs).input = cs := by
  fun_induction stringBody cs <;> simp_all

theorem input_string (cs : List Char) : (string cs).input = cs := by
  unfold string
  cases cs with
  | nil => rfl
  | cons c r => dsimp only; split <;> simp [input_stringBody]

theorem input_singleOperator (cs : List Char) : (singleOperator cs).input = cs := by
  unfold singleOperator
  cases cs with
  | nil => rfl
  | cons c r => dsimp only; split <;> simp

theorem input_operator (cs : List Char) : (operator cs).input = cs := by
  unfold operator
  split
  · split
    · simp
    · exact input_singleOperator _
  · exact input_singleOperator _

theorem input_token (cs : List Char) : (token cs).input = cs := by
  unfold token
  cases cs with
  | nil => rfl
  | cons c r =>
    dsimp only
    split
    · exact input_identifier _
    · split
      · exact input_number _
      · split
        · exact input_character _
        · split
          · exact input_string _
          · exact input_operator _

/-- A scanner that succeeds only after some character. -/
def Takes (s : Scan α) : Prop := ∀ a, s.outcome = .ok a → s.taken ≠ []

theorem takes_done_cons (c : Char) (taken rest : List Char) (a : α) :
    (done (c :: taken) rest a).Takes := fun _ _ => by simp [done]

theorem takes_failed (taken rest : List Char) (p : LexicalProblem) :
    (failed taken rest p : Scan α).Takes := fun _ h => by simp [failed] at h

theorem takes_after_cons (c : Char) (cs : List Char) (s : Scan α) :
    (s.after (c :: cs)).Takes := fun _ _ => by simp [after]

theorem takes_zero (signed : Bool) (r : List Char) : (zero signed r).Takes := by
  unfold zero
  split
  · split
    · exact takes_done_cons _ _ _ _
    · exact takes_failed _ _ _
  · split
    · exact takes_failed _ _ _
    · exact takes_done_cons _ _ _ _

theorem takes_positive {c : Char} {r : List Char} (h : isDigit c = true) :
    (positive (c :: r)).Takes := by
  have ht : (c :: r).takeWhile isDigit = c :: r.takeWhile isDigit := by simp [h]
  unfold positive
  rw [ht]
  dsimp only
  split
  · split <;> exact takes_done_cons _ _ _ _
  · exact takes_done_cons _ _ _ _

theorem takes_unsigned (signed : Bool) (cs : List Char) : (unsigned signed cs).Takes := by
  unfold unsigned
  cases cs with
  | nil => exact takes_failed _ _ _
  | cons c r =>
    dsimp only
    split
    · exact takes_zero _ _
    · split
      · next h => exact takes_positive h
      · exact takes_failed _ _ _

theorem takes_number (c : Char) (r : List Char) : (number (c :: r)).Takes := by
  unfold number
  dsimp only
  split
  · split
    · exact takes_after_cons _ _ _
    · exact takes_done_cons _ _ _ _
  · exact takes_unsigned _ _

theorem takes_singleOperator (cs : List Char) : (singleOperator cs).Takes := by
  unfold singleOperator
  cases cs with
  | nil => exact takes_failed _ _ _
  | cons c r =>
    dsimp only
    split
    · exact takes_failed _ _ _
    · exact takes_done_cons _ _ _ _

theorem takes_operator (cs : List Char) : (operator cs).Takes := by
  unfold operator
  split
  · split
    · exact takes_done_cons _ _ _ _
    · exact takes_singleOperator _
  · exact takes_singleOperator _

theorem takes_token (cs : List Char) : (token cs).Takes := by
  unfold token
  cases cs with
  | nil => exact takes_operator _
  | cons c r =>
    dsimp only
    split
    · next h =>
      simp only [identifier, h, if_true]
      exact takes_done_cons _ _ _ _
    · split
      · exact takes_number _ _
      · split
        · next h =>
          simp only [character, h, if_true]
          exact takes_after_cons _ _ _
        · split
          · next h =>
            simp only [string, h, if_true]
            exact takes_after_cons _ _ _
          · exact takes_operator _

/-- What is left after a token is shorter. -/
theorem length_rest_token_lt {cs : List Char} {kind : TokenKind}
    (h : (token cs).outcome = .ok kind) : (token cs).rest.length < cs.length := by
  have hi := congrArg List.length (input_token cs)
  have ht := List.length_pos_iff.mpr (takes_token cs kind h)
  simp only [input, List.length_append] at hi
  omega

end FrontEnd.Scan
