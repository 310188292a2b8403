import FrontEnd.Proofs.Grammar.FirstToken
import FrontEnd.Proofs.Grammar.Reading

/-!
# Tokens on their own

A token needs nothing around it. Its text on its own is cut into just that token, whatever stood
before and behind it in the source it comes from, and so is every text of the language of some kind.
So the text of a token tells its kind. The parser relies on this where it asks for a keyword, a mark
or an operator and compares texts only: no number and no quoted text reads like one of them.
-/

namespace FrontEnd

/-- A text that the parser asks for, whatever the kind of the token. -/
def IsTerminal (s : String) : Prop := s ∈ keywords ∨ s ∈ marks ∨ ∃ o : Operator, o.symbol = s

/-- The kinds of the tokens that are constants by their kind. -/
def TokenKind.constants : List TokenKind := [.integer, .decimal, .character, .string]

/-- A token that the lexer has made of some source. -/
def Token.FromSource (t : Token) : Prop := ∃ source ts, tokenize source = .ok ts ∧ t ∈ ts

lemma Token.FromSource.genuine {t : Token} (h : t.FromSource) : t.Genuine := by
  obtain ⟨source, ts, hts, ht⟩ := h
  exact genuine_of_tokenize hts t ht

/-- The texts of a kind are those that are cut into one token of that kind. -/
lemma tokenize_eq_single_iff {kind : TokenKind} {text : String} :
    tokenize text = .ok [⟨kind, text, 0⟩] ↔ kind.Spells text.toList := by
  constructor
  · intro h
    exact genuine_of_tokenize h _ (List.mem_singleton_self _)
  · intro h
    exact Token.Genuine.made (t := ⟨kind, text, 0⟩) h rfl

lemma Token.Genuine.kind_of_terminal {t : Token} (hg : t.Genuine) (h : IsTerminal t.text) :
    t.kind = .identifier ∨ t.kind = .operator := by
  obtain h | h | ⟨o, h⟩ := h
  · exact .inl (hg.kind_of_keyword h)
  · exact .inr (hg.kind_of_mark h)
  · exact .inr (hg.kind_eq (h ▸ spells_symbol o))

lemma Token.Genuine.not_isTerminal {t : Token} (hg : t.Genuine)
    (hk : t.kind ∈ TokenKind.constants) : ¬IsTerminal t.text := by
  intro h
  rcases hg.kind_of_terminal h with h | h <;> simp [h, TokenKind.constants] at hk

/-- No rule that asks for a text takes a number or a quoted text of the lexer. -/
lemma Token.Genuine.not_accepted {t : Token} (hg : t.Genuine) (hk : t.kind ∈ TokenKind.constants)
    {s : String} (hs : IsTerminal s) : (Pattern.text s).accepts t = false := by
  refine Bool.eq_false_iff.mpr fun h => hg.not_isTerminal hk ?_
  rwa [(Rule.accepts_text s t).mp h]

lemma Token.Genuine.ofSymbol?_text {t : Token} (hg : t.Genuine)
    (hk : t.kind ∈ TokenKind.constants) : Operator.ofSymbol? t.text = none := by
  refine Option.eq_none_iff_forall_ne_some.mpr fun o ho => hg.not_isTerminal hk ?_
  exact .inr (.inr ⟨o, Operator.symbol_of_ofSymbol? ho⟩)

/-- The text of a token of any source is, on its own, that token and nothing else, and the texts for
which this holds with some kind are the language of the kind. So the kind of a token is a function
of its text, and what the parser asks for by its text is never a number or a quoted text. -/
theorem tokens_need_no_context :
    (∀ t : Token, t.FromSource → tokenize t.text = .ok [⟨t.kind, t.text, 0⟩]) ∧
    (∀ (kind : TokenKind) text,
      kind.Spells text.toList ↔ tokenize text = .ok [⟨kind, text, 0⟩]) ∧
    (∀ t u : Token, t.FromSource → u.FromSource → t.text = u.text → t.kind = u.kind) ∧
    ∀ t : Token, t.FromSource → t.kind ∈ TokenKind.constants →
      (∀ s, IsTerminal s → (Pattern.text s).accepts t = false) ∧
        Operator.ofSymbol? t.text = none := by
  refine ⟨?alone, fun _ _ => tokenize_eq_single_iff.symm, ?kind, ?terminal⟩
  case alone =>
    intro t ht
    exact tokenize_eq_single_iff.mpr ht.genuine
  case kind =>
    intro t u ht hu htext
    have hspells : u.kind.Spells t.text.toList := htext ▸ hu.genuine
    exact ht.genuine.kind_eq hspells
  case terminal =>
    intro t ht hk
    exact ⟨fun s hs => ht.genuine.not_accepted hk hs, ht.genuine.ofSymbol?_text hk⟩

end FrontEnd
