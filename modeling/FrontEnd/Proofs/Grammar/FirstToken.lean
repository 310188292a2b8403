import Mathlib.Tactic.FinCases
import FrontEnd.Proofs.Grammar.Derivation

/-!
# First tokens

Which tokens of the lexer can begin an expression or a statement when the keywords are reserved.
-/

namespace FrontEnd

/-- The marks between the parts of a construct. -/
def marks : List String := ["(", ")", ",", ".", ";", "="]

lemma spells_keyword {s : String} (h : s ∈ keywords) : TokenKind.identifier.Spells s.toList := by
  unfold keywords at h
  fin_cases h <;> exact spells_of_token rfl

lemma spells_mark {s : String} (h : s ∈ marks) : TokenKind.operator.Spells s.toList := by
  unfold marks at h
  fin_cases h <;> exact spells_of_token rfl

lemma Operator.level_lt (o : Operator) : o.level < 4 := by
  cases o <;> decide

lemma spells_symbol (o : Operator) : TokenKind.operator.Spells o.symbol.toList := by
  cases o <;> exact spells_of_token rfl

lemma Token.Genuine.kind_of_keyword {t : Token} (hg : t.Genuine) (h : t.text ∈ keywords) :
    t.kind = .identifier :=
  hg.kind_eq (spells_keyword h)

lemma Token.Genuine.kind_of_mark {t : Token} (hg : t.Genuine) (h : t.text ∈ marks) :
    t.kind = .operator :=
  hg.kind_eq (spells_mark h)

lemma made_keyword (s : String) (h : s ∈ keywords) : (word s).Made :=
  Token.Genuine.made (t := word s) (spells_keyword h) rfl

lemma made_mark (s : String) (h : s ∈ marks) : (mark s).Made :=
  Token.Genuine.made (t := mark s) (spells_mark h) rfl

/-- Derivations in which no keyword is a name. -/
abbrev Reserved : (n : Nonterminal) → List Token → n.Tree → Prop := Derives fun s => s ∉ keywords

/-- What is an operand of operators of some level is one of lower levels. -/
lemma derives_lower {j k : Nat} (hj : j ≤ k) (hk : k ≤ 4) {xs : List Token} {e : Expression}
    (h : Reserved (.level k) xs e) : Reserved (.level j) xs e := by
  induction hj with
  | refl => exact h
  | step _ ih => exact ih (by omega) (.operand (by omega) h)

/-- A token with which an expression can begin. -/
def StartsExpression (t : Token) : Prop :=
  (∃ v, Denotes t v) ∨ t.text = "(" ∨ IsName (· ∉ keywords) t

/-- A keyword that begins an expression is a constant. -/
lemma StartsExpression.keyword {t : Token} (h : StartsExpression t) (hg : t.Genuine)
    (hk : t.text ∈ keywords) : t.text = "NIL" ∨ t.text = "TRUE" ∨ t.text = "FALSE" := by
  have hkind := hg.kind_of_keyword hk
  obtain ⟨v, hv⟩ | ho | hn := h
  · cases hv with
    | nil h => exact .inl h
    | truth h => exact .inr (.inl h)
    | falsehood h => exact .inr (.inr h)
    | integer h | decimal h | character h | string h => simp [h] at hkind
  · simp [ho, keywords] at hk
  · exact absurd hk hn.2

/-- An operator that begins an expression opens a group. -/
lemma StartsExpression.operator {t : Token} (h : StartsExpression t) (hg : t.Genuine)
    (hk : t.kind = .operator) : t.text = "(" := by
  obtain ⟨v, hv⟩ | ho | hn := h
  · cases hv with
    | nil h | truth h | falsehood h =>
      have := hg.kind_of_keyword (by simp [h, keywords])
      simp [this] at hk
    | integer h | decimal h | character h | string h => simp [h] at hk
  · exact ho
  · have := hn.1
    simp [this] at hk

/-- The words with which a statement other than an assignment or an expression begins. -/
def statementWords : List String := ["LET", "IF", "FOR", "WHILE", "RETURN"]

/-- How what derives from a nonterminal begins. -/
def Begins : Nonterminal → List Token → Prop
  | .expression, xs | .level _, xs | .secondary, xs | .primary, xs =>
    ∃ t ys, xs = t :: ys ∧ StartsExpression t
  | .statement, xs => ∃ t ys, xs = t :: ys ∧ (t.text ∈ statementWords ∨ StartsExpression t)
  | _, _ => True

theorem begins_of_derives {n : Nonterminal} {xs : List Token} {tree : n.Tree}
    (h : Reserved n xs tree) : Begins n xs := by
  induction h with
  | noDefinition | sourceField | sourceMethod | field | constantField | method => trivial
  | noName | names | lastName | moreNames | noStatement | statements | noElse | elsePart => trivial
  | noInitializer | initializer | noBinding | binding => trivial
  | noActuals | actuals | arguments | lastArgument | moreArguments => trivial
  | declaration h | branch h | forLoop h | whileLoop h | exit h | exitValue h =>
    exact ⟨_, _, rfl, .inl (by simp [h, statementWords])⟩
  | assignment ht _ _ _ ih _ | effect ht _ ih =>
    obtain ⟨t, ys, rfl, h⟩ := ih
    exact ⟨t, _, rfl, .inr h⟩
  | expression _ ih | secondary _ ih | primary _ ih | operand _ _ ih => exact ih
  | binary _ _ _ _ ih _ | member _ _ _ ih | methodCall _ _ _ _ ih _ =>
    obtain ⟨t, ys, rfl, h⟩ := ih
    exact ⟨t, _, rfl, h⟩
  | constant h => exact ⟨_, [], rfl, .inl ⟨_, h⟩⟩
  | group h => exact ⟨_, _, rfl, .inr (.inl h)⟩
  | name h | call h => exact ⟨_, _, rfl, .inr (.inr h)⟩

end FrontEnd
