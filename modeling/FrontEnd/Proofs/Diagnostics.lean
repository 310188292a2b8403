import FrontEnd.Diagnostics
import FrontEnd.Proofs.Grammar.Acceptance
import FrontEnd.Proofs.Nesting.Depth

/-!
# Answers to edits

Every edit is answered with one publication, which has one diagnostic if the document cannot be
read, unless reading comes to an integer with more digits than are supported.
-/

namespace FrontEnd

open Grammar

/-- That a publication says of the document of an edit whether and why it cannot be read. -/
structure Edit.Answered (e : Edit) (p : Publication) : Prop where
  uri : p.uri = e.uri
  clean : p.diagnostics = [] ↔ ∃ program, parse e.text = .ok program
  single : p.diagnostics ≠ [] → ∃ report d, parse e.text = .error (.reported report) ∧
    p.diagnostics = [d] ∧ d.message = report.message ∧ d.severity = .error ∧
    (d.code = "lex" ↔ ∃ error, tokenize e.text = .error error) ∧
    (d.code = "parse" ↔ ∃ ts, tokenize e.text = .ok ts)

/-- That reading a source comes to an integer with more digits than are supported. -/
def StopsAtOverlong (source : String) : Prop :=
  ∃ c t rest, tokenize source = .ok (c ++ t :: rest) ∧ t.kind = .integer ∧
    maxIntegerDigits < t.text.toList.countP isDigit ∧
    program maxNesting (c ++ t :: rest) = .error (.numeral .integer) rest

/-- A report is one of the lexer, or one of the parser about the tokens of the lexer. -/
lemma report_cases {source : String} {report : Report}
    (h : parse source = .error (.reported report)) :
    (report.stage = .lexical ∧ ∃ error, tokenize source = .error error) ∨
      (report.stage = .syntactic ∧ ∃ ts, tokenize source = .ok ts) := by
  obtain ⟨error, ht, hp⟩ | ⟨ts, ht, ⟨p, -, hp⟩ | ⟨problem, rest, -, hp⟩⟩ := parse_cases source
  · rw [hp] at h
    cases h
    exact .inl ⟨rfl, error, ht⟩
  · rw [hp] at h
    cases h
  · rw [hp] at h
    cases problem with
    | numeral kind => cases h
    | syntactic cause =>
      cases h
      exact .inr ⟨rfl, ts, ht⟩

/-- Reading fails without a report at overlong integers only. -/
lemma stopsAtOverlong_of_parse {source : String} {kind : NumeralKind}
    (h : parse source = .error (.numeral kind)) : kind = .integer ∧ StopsAtOverlong source := by
  obtain ⟨error, -, hp⟩ | ⟨ts, ht, ⟨p, -, hp⟩ | ⟨problem, rest, he, hp⟩⟩ := parse_cases source
  · rw [hp] at h
    cases h
  · rw [hp] at h
    cases h
  · rw [hp] at h
    cases problem with
    | syntactic cause => cases h
    | numeral kind =>
      cases h
      obtain ⟨t, ⟨c, rfl⟩, hc⟩ := fails_program he
      have hg : t.Genuine := genuine_of_tokenize ht t (by simp)
      obtain ⟨rfl, hkind, hlong⟩ := overlong_of_constant? hg hc
      exact ⟨rfl, c, t, rest, ht, hkind, hlong, he⟩

lemma publication_of_overlong {e : Edit} (h : StopsAtOverlong e.text) :
    e.publication = .error .integer := by
  obtain ⟨c, t, rest, ht, -, -, hp⟩ := h
  simp only [Edit.publication, parse_of_tokenize ht, hp]
  rfl

lemma answered_of_not_overlong {e : Edit} (h : ¬StopsAtOverlong e.text) :
    ∃ p, e.publication = .ok p ∧ e.Answered p := by
  cases hp : parse e.text with
  | ok program =>
    refine ⟨⟨e.uri, []⟩, by simp only [Edit.publication, hp], rfl, ?_, fun hne => absurd rfl hne⟩
    exact ⟨fun _ => ⟨program, hp⟩, fun _ => rfl⟩
  | error failure =>
    cases failure with
    | numeral kind => exact absurd (stopsAtOverlong_of_parse hp).2 h
    | reported report =>
      refine ⟨⟨e.uri, [report.diagnostic]⟩, by simp only [Edit.publication, hp], rfl, ?_,
        fun _ => ⟨report, report.diagnostic, hp, rfl, rfl, rfl, ?_⟩⟩
      · rw [hp]
        simp
      · have hcode : report.diagnostic.code = report.stage.code := rfl
        rw [hcode]
        obtain ⟨hstage, error, ht⟩ | ⟨hstage, ts, ht⟩ := report_cases hp
        · simp [hstage, ht, Stage.code]
        · simp [hstage, ht, Stage.code]

/-- Every edit of a sequence is answered by itself, with one publication that says what there is to
say, but for those at whose overlong integers reading stops. These are not answered. -/
theorem every_edit_answered_unless_overlong (edits : List Edit) :
    List.Forall₂ (fun e answer =>
      (¬StopsAtOverlong e.text ∧ ∃ p, answer = .ok p ∧ e.Answered p) ∨
        (StopsAtOverlong e.text ∧ answer = .error .integer))
      edits (edits.map Edit.publication) := by
  refine List.forall₂_map_right_iff.mpr (List.forall₂_same.mpr fun e _ => ?_)
  by_cases h : StopsAtOverlong e.text
  · exact .inr ⟨h, publication_of_overlong h⟩
  · exact .inl ⟨h, answered_of_not_overlong h⟩

section

open Rule

/-- A numeral that cannot be read stops every expression that begins with it. -/
lemma expression_of_unreadable {t : Token} {kind : NumeralKind}
    (h : constant? t = some (.error kind)) (depth : Nat) (ts : List Token) :
    expression (depth + 1) (t :: ts) = .error (.numeral kind) ts := by
  have hoperand : operand (expression depth) (t :: ts) = .error (.numeral kind) ts := by
    simp only [operand, h]
  have hlinked : linked (expression depth) (t :: ts) = .error (.numeral kind) ts :=
    bind_error.mpr (.inl hoperand)
  have hchain {level : Nat} {item : Rule Expression}
      (hi : item (t :: ts) = .error (.numeral kind) ts) :
      chain level item (t :: ts) = .error (.numeral kind) ts := bind_error.mpr (.inl hi)
  exact hchain (hchain (hchain (hchain hlinked)))

/-- A numeral that cannot be read stops the program whose first field begins with it. -/
lemma program_of_unreadable_field {l n q t : Token} {kind : NumeralKind} (hl : l.text = "LET")
    (hn : n.kind = .identifier) (hname : n.text ≠ "CONST") (hq : q.text = "=")
    (ht : constant? t = some (.error kind)) (depth : Nat) (ts : List Token) :
    program (depth + 1) (l :: n :: q :: t :: ts) = .error (.numeral kind) ts := by
  have hvalue := expression_of_unreadable ht depth ts
  have hinitializer : initializer (expression (depth + 1)) (q :: t :: ts) =
      .error (.numeral kind) ts :=
    (bind_of_ok (accept_of (accepts_text_of hq) _) _).trans (bind_error.mpr (.inl hvalue))
  have hrest : fieldRest (depth + 1) (n :: q :: t :: ts) = .error (.numeral kind) ts := by
    refine (bind_of_ok (accept_of_not fun u hu => ?_) _).trans ?_
    · cases hu
      exact not_accepts_text_of hname
    · exact (bind_of_ok (name_of hn _ _) _).trans (bind_error.mpr (.inl hinitializer))
  have hfield : field (depth + 1) (l :: n :: q :: t :: ts) = .error (.numeral kind) ts :=
    (bind_of_ok (expect_of (accepts_text_of hl) _ _) _).trans hrest
  have hdefinition : definition (depth + 1) (l :: n :: q :: t :: ts) =
      .error (.numeral kind) ts := by
    rw [definition_cons, if_pos hl]
    exact bind_error.mpr (.inl hfield)
  refine bind_error.mpr (.inl ?_)
  rw [many_apply (finds_definition _), hdefinition]

end

/-- A document with one field, whose value is an integer. -/
def fieldOf (numeral : List Char) : String := "LET x = " ++ String.ofList numeral ++ " ;"

lemma fieldOf_eq_spaced (numeral : List Char) : fieldOf numeral =
    spaced [word "LET", word "x", mark "=", ⟨.integer, String.ofList numeral, 0⟩, mark ";"] := by
  refine String.toList_injective ?_
  simp only [toList_spaced_cons]
  simp [fieldOf, spaced, word, mark]

/-- Reading a field comes to its value if that is an integer with too many digits. -/
lemma stopsAtOverlong_fieldOf {numeral : List Char} (h : TokenKind.integer.Spells numeral)
    (hlong : maxIntegerDigits < numeral.countP isDigit) : StopsAtOverlong (fieldOf numeral) := by
  let t : Token := ⟨.integer, String.ofList numeral, 8⟩
  have htext : t.text.toList = numeral := String.toList_ofList
  have hg : t.Genuine := by rwa [Token.Genuine, htext]
  have hgenuine : ∀ u ∈ [word "LET", word "x", mark "=", ⟨.integer, String.ofList numeral, 0⟩,
      mark ";"], u.Genuine := by
    intro u hu
    simp only [List.mem_cons, List.not_mem_nil, or_false] at hu
    rcases hu with rfl | rfl | rfl | rfl | rfl
    case inr.inr.inr.inl => exact hg
    all_goals exact spells_of_token rfl
  have ht : constant? t = some (.error .integer) := by
    rw [constant?_integer hg rfl, htext, if_neg (Nat.not_le.mpr hlong)]
  refine ⟨placed 0 [word "LET", word "x", mark "="], t, placed (8 + t.length + 1) [mark ";"], ?_,
    rfl, htext.symm ▸ hlong, ?_⟩
  · rw [fieldOf_eq_spaced, tokenize_spaced hgenuine]
    rfl
  · exact program_of_unreadable_field rfl rfl (by decide) rfl ht 63 _

lemma spells_nines (n : Nat) : TokenKind.integer.Spells (List.replicate (n + 1) '9') := by
  refine .inr ⟨[], _, rfl, .inl rfl, '9', List.replicate n '9', List.replicate_succ, rfl,
    by decide, fun d hd => ?_⟩
  rw [List.eq_of_mem_replicate hd]
  rfl

/-- A field is not answered if its value has too many digits. -/
lemma publication_of_nines {n : Nat} (h : maxIntegerDigits ≤ n) (uri : String) :
    (Edit.opened uri (fieldOf (List.replicate (n + 1) '9'))).publication = .error .integer := by
  have hlong : maxIntegerDigits < (List.replicate (n + 1) '9').countP isDigit := by
    rw [List.countP_replicate, if_pos (by decide)]
    exact Nat.lt_succ_of_le h
  exact publication_of_overlong (stopsAtOverlong_fieldOf (spells_nines n) hlong)

theorem overlong_integer_unanswered :
    ¬∃ p, (Edit.opened "file:///a" (fieldOf (List.replicate 4301 '9'))).publication = .ok p := by
  rw [publication_of_nines (n := 4300) (by decide)]
  rintro ⟨p, h⟩
  cases h

end FrontEnd
