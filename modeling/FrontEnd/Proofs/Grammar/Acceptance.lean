import FrontEnd.Reading
import FrontEnd.Proofs.Grammar.Soundness
import FrontEnd.Proofs.Grammar.Completeness

/-!
# What the parser accepts

The parser accepts no list of tokens that the grammar does not derive, and with the keywords
reserved it accepts all of those that are not nested too deeply, each with its only tree.
-/

namespace FrontEnd

open Grammar

lemma readTokens_ok {α : Type} {rule : Rule α} {text : String} {ts rest : List Token} {a : α} :
    readTokens rule text ts = .ok (a, rest) ↔ rule ts = .ok a rest := by
  unfold readTokens
  cases rule ts with
  | ok b middle => simp
  | error problem middle => simp

/-- A rule is applied to the tokens of a source. -/
lemma readSource_of_tokenize {α : Type} (rule : Rule α) {source : String} {ts : List Token}
    (h : tokenize source = .ok ts) : readSource rule source = match rule ts with
      | .ok a _ => .ok a
      | .error problem rest => .error (failureOf source ts rest problem) := by
  have hread : readSource rule source =
      (readTokens rule source ts >>= fun read => pure read.1) := by
    simp only [readSource, tokensOf, h]
    rfl
  rw [hread, readTokens]
  cases rule ts <;> rfl

lemma parse_of_tokenize {source : String} {ts : List Token} (h : tokenize source = .ok ts) :
    parse source = match program maxNesting ts with
      | .ok p _ => .ok p
      | .error problem rest => .error (failureOf source ts rest problem) := by
  rw [parse, readSource_of_tokenize _ h]
  cases program maxNesting ts <;> rfl

lemma parse_of_tokenize_error {source : String} {error : LexicalError}
    (h : tokenize source = .error error) :
    parse source = .error (.reported (error.report source)) := by
  simp only [parse, readSource, tokensOf, h]
  rfl

/-- A source fails in the lexer, or its tokens are all read, or they fail in the parser. -/
lemma parse_cases (source : String) :
    (∃ error, tokenize source = .error error ∧
      parse source = .error (.reported (error.report source))) ∨
    ∃ ts, tokenize source = .ok ts ∧
      ((∃ p, program maxNesting ts = .ok p [] ∧ parse source = .ok p) ∨
        ∃ problem rest, program maxNesting ts = .error problem rest ∧
          parse source = .error (failureOf source ts rest problem)) := by
  cases ht : tokenize source with
  | error error => exact .inl ⟨error, rfl, parse_of_tokenize_error ht⟩
  | ok ts =>
    have hparse := parse_of_tokenize ht
    refine .inr ⟨ts, rfl, ?_⟩
    cases hp : program maxNesting ts with
    | ok p rest =>
      obtain rfl := program_ends hp
      exact .inl ⟨p, rfl, by rw [hparse, hp]⟩
    | error problem rest => exact .inr ⟨problem, rest, rfl, by rw [hparse, hp]⟩

lemma derives_of_program {depth : Nat} {ts rest : List Token} {p : Program}
    (hg : ∀ t ∈ ts, t.Genuine) (h : program depth ts = .ok p rest) :
    rest = [] ∧ (∀ t ∈ ts, t.Readable) ∧ Derives (fun _ => True) .source ts p := by
  obtain rfl := program_ends h
  obtain ⟨xs, rfl, hread, hp⟩ := gives_program depth ts p [] hg h
  rw [List.append_nil]
  exact ⟨rfl, hread, hp⟩

/-- With the keywords reserved, tokens have one tree at most. -/
lemma derives_unique {ts : List Token} {p q : Program} (hs : Sound ts)
    (hp : Derives (· ∉ keywords) .source ts p) (hq : Derives (· ∉ keywords) .source ts q) :
    p = q := by
  have h1 := program_of_derives hp hs (Nat.le_max_left p.nesting q.nesting)
  have h2 := program_of_derives hq hs (Nat.le_max_right p.nesting q.nesting)
  rw [h1] at h2
  cases h2
  rfl

/-- Parsing the tokens of a source is derivation in the grammar. -/
theorem parser_accepts_derivations {source : String} {ts : List Token}
    (h : tokenize source = .ok ts) (hr : ∀ t ∈ ts, t.Readable) (text : String) :
    (∀ p rest, readTokens (program maxNesting) text ts = .ok (p, rest) →
      rest = [] ∧ Derives (fun _ => True) .source ts p) ∧
    (∀ p, Derives (· ∉ keywords) .source ts p → p.nesting ≤ maxNesting →
      readTokens (program maxNesting) text ts = .ok (p, [])) ∧
    (∀ p q, Derives (· ∉ keywords) .source ts p → Derives (· ∉ keywords) .source ts q → p = q) := by
  have hg := genuine_of_tokenize h
  have hs : Sound ts := fun t ht => ⟨hg t ht, hr t ht⟩
  refine ⟨?_, ?_, ?_⟩
  · intro p rest hp
    obtain ⟨hrest, -, hderives⟩ := derives_of_program hg (readTokens_ok.mp hp)
    exact ⟨hrest, hderives⟩
  · intro p hp hd
    exact readTokens_ok.mpr (program_of_derives hp hs hd)
  · intro p q hp hq
    exact derives_unique hs hp hq

theorem declaration_of_constant_accepted :
    readTokens (program maxNesting) "" [⟨.identifier, "LET", 0⟩, ⟨.identifier, "a", 4⟩,
      ⟨.operator, "=", 6⟩, ⟨.integer, "1", 8⟩, ⟨.operator, ";", 9⟩] =
      .ok (⟨[⟨"a", false, some (.literal (.integer 1))⟩], []⟩, []) := by
  have h : tokenize "LET a = 1;" = .ok [⟨.identifier, "LET", 0⟩, ⟨.identifier, "a", 4⟩,
      ⟨.operator, "=", 6⟩, ⟨.integer, "1", 8⟩, ⟨.operator, ";", 9⟩] := by decide +kernel
  have hvalue : Derives (· ∉ keywords) .expression [⟨.integer, "1", 8⟩] (.literal (.integer 1)) :=
    .expression (derives_lower (Nat.zero_le 4) (Nat.le_refl 4)
      (.secondary (.primary (.constant (.integer rfl)))))
  have hfield : Derives (· ∉ keywords) .field _ _ := .field (l := ⟨.identifier, "LET", 0⟩)
    (n := ⟨.identifier, "a", 4⟩) (s := ⟨.operator, ";", 9⟩) rfl ⟨rfl, by decide⟩
    (.initializer (q := ⟨.operator, "=", 6⟩) rfl hvalue) rfl
  have hsource := Derives.sourceField hfield .noDefinition
  exact (parser_accepts_derivations h (by simp [Token.Readable]; decide) "").2.1 _ hsource
    (by decide)

end FrontEnd
