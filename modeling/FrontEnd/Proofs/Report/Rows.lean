import FrontEnd.Proofs.Report.Snippet

/-!
# The rows of a report

The text of a report on a source has five rows, with the bars of the last three in one column. No
row is broken, except that of the message where a newline stands behind a backslash: the message
quotes the character that is no escape.
-/

namespace FrontEnd

open Grammar

/-- That the scanner fails at a newline behind a backslash. -/
def EscapesNewline (source : String) : Prop :=
  ∃ o, tokenize source = .error ⟨.unknownEscape '\n', o⟩

/-- A row with a bar in some column, and text on both sides of it. -/
def barred (column : Nat) (label text : List Char) : List Char :=
  label ++ List.replicate (column - label.length) ' ' ++ '|' :: text

/-- The rows of a report on a line of its source, below the message: the place, an empty row, the
line and the carets. -/
def Report.rowsBelow (r : Report) (filename : String) (line : List Char) : List (List Char) :=
  let number := (toString r.position.line).toList
  let column := number.length + 1
  [ List.replicate column ' ' ++ "--> ".toList ++ filename.toList ++ ':' :: number ++
      ':' :: (toString r.position.column).toList,
    barred column [] [],
    barred column number (' ' :: shorn line),
    barred column [] (' ' :: List.replicate (r.position.column - 1) ' ' ++
      List.replicate r.length.toNat '^') ]

lemma idxOf_barred {column : Nat} {label : List Char} (h : '|' ∉ label)
    (hle : label.length ≤ column) (text : List Char) :
    (barred column label text).idxOf '|' = column := by
  have hfront : '|' ∉ label ++ List.replicate (column - label.length) ' ' := by
    simp [h]
  rw [barred, List.idxOf_append_of_notMem hfront, List.idxOf_cons_self, List.length_append,
    List.length_replicate]
  omega

lemma SyntaxCause.newline_notMem (cause : SyntaxCause) : '\n' ∉ cause.message.toList := by
  cases cause <;> decide +kernel

/-- Of the lexical problems only an unknown escape can have a newline in its wording. -/
lemma LexicalProblem.newline_notMem {problem : LexicalProblem} (h : problem ≠ .unknownEscape '\n') :
    '\n' ∉ problem.message.toList := by
  cases problem with
  | unknownEscape letter =>
    have hparts : (unknownEscape letter).message.toList =
        "invalid escape sequence '\\".toList ++ [letter] ++ "'".toList := by
      rw [← String.toList_singleton, ← String.toList_append, ← String.toList_append]
      rfl
    have hne : '\n' ≠ letter := fun he => h (by rw [he])
    have hfront : '\n' ∉ "invalid escape sequence '\\".toList := by decide +kernel
    have hback : '\n' ∉ "'".toList := by decide
    rw [hparts, List.mem_append, List.mem_append, List.mem_singleton]
    exact fun hmem => hmem.elim (fun hmem => hmem.elim hfront hne) hback
  | _ => decide +kernel

/-- The message of a report is in one row unless it quotes a newline. -/
lemma linesOf_message {source : String} {r : Report}
    (h : parse source = .error (.reported r)) (he : ¬EscapesNewline source) :
    linesOf ("error: " ++ r.message) = [("error: " ++ r.message).toList] := by
  have hmessage : '\n' ∉ r.message.toList := by
    obtain ⟨e, ht, hp⟩ | ⟨ts, -, ⟨p, -, hp⟩ | ⟨problem, rest, -, hp⟩⟩ := parse_cases source
    · rw [hp] at h
      cases h
      apply LexicalProblem.newline_notMem
      intro hproblem
      exact he ⟨e.offset, by rw [ht, ← hproblem]⟩
    · rw [hp] at h
      cases h
    · rw [hp] at h
      cases problem with
      | numeral kind => cases h
      | syntactic cause =>
        cases h
        exact cause.newline_notMem
  have hrow : ∀ row ∈ ["error: " ++ r.message], '\n' ∉ row.toList := by
    simpa using hmessage
  have hlines := linesOf_rows (List.cons_ne_nil _ []) hrow
  simpa using hlines

lemma linesOf_message_of_escapesNewline {source : String} {r : Report}
    (h : parse source = .error (.reported r)) (he : EscapesNewline source) :
    linesOf ("error: " ++ r.message) = ["error: invalid escape sequence '\\".toList, ['\'']] := by
  obtain ⟨o, ht⟩ := he
  rw [parse_of_tokenize_error ht] at h
  cases h
  change linesOf ("error: " ++ (LexicalProblem.unknownEscape '\n').message) = _
  decide +kernel

/-- The rows of a report on some characters of a source. -/
lemma Report.About.linesOf_text {source filename : String} {r : Report}
    {before marked after : List Char} (ha : r.About source before marked after)
    (hp : parse source = .error (.reported r)) (hf : '\n' ∉ filename.toList) :
    linesOf (r.text filename) = linesOf ("error: " ++ r.message) ++
      r.rowsBelow filename (lastLine before ++ marked ++ firstLine after) := by
  have hline := ha.newline_notMem_shownLine
  have hnumber := notMem_toList_toString (c := '\n') rfl r.position.line
  have hcolumn := notMem_toList_toString (c := '\n') rfl r.position.column
  rw [Nat.toString_eq_ofList_toDigits, String.toList_ofList] at hnumber hcolumn
  have hcarets : r.length.toNat = r.underline := by rw [← ha.underline, Int.toNat_natCast]
  rw [text_eq_rows (ha.source_ne_empty hp), Report.rows,
    linesOf_intercalate_cons _ (List.cons_ne_nil _ _), linesOf_rows (List.cons_ne_nil _ _)]
  · simp [Report.rowsBelow, barred, Report.spaces, ha.shownLine, hcarets, ← String.length_toList]
  · simp [Report.spaces, hf, hnumber, hcolumn, hline]

/-- The bars of a report stand behind the number of its line, whatever that is. -/
lemma idxOf_rowsBelow (r : Report) (filename : String) (line : List Char) :
    ∀ row ∈ (r.rowsBelow filename line).tail,
      row.idxOf '|' = (toString r.position.line).length + 1 := by
  have hnumber : '|' ∉ (toString r.position.line).toList := notMem_toList_toString rfl _
  intro row hrow
  simp only [Report.rowsBelow, List.tail_cons, List.mem_cons, List.not_mem_nil, or_false] at hrow
  rw [← String.length_toList]
  obtain rfl | rfl | rfl := hrow
  · exact idxOf_barred List.not_mem_nil (Nat.zero_le _) _
  · exact idxOf_barred hnumber (Nat.le_succ _) _
  · exact idxOf_barred List.not_mem_nil (Nat.zero_le _) _

/-- A report on a source has five rows: the message, the place, an empty row, the line and the
carets, of which there is at least one. The bars stand in one column. Only a newline behind a
backslash, which the message quotes, breaks the row of the message in two. -/
theorem report_has_five_rows_unless_newline_escaped {source : String} {r : Report}
    (h : parse source = .error (.reported r)) {filename : String} (hf : '\n' ∉ filename.toList) :
    r.position = positionAt source r.offset ∧ 0 < r.length ∧
    ∃ line, (linesOf source)[r.position.line - 1]? = some line ∧
      (¬EscapesNewline source → linesOf (r.text filename) =
        ("error: " ++ r.message).toList :: r.rowsBelow filename line) ∧
      (EscapesNewline source → linesOf (r.text filename) =
        "error: invalid escape sequence '\\".toList :: "'".toList :: r.rowsBelow filename line) ∧
      ∀ row ∈ (r.rowsBelow filename line).tail,
        row.idxOf '|' = (toString r.position.line).length + 1 := by
  obtain ⟨before, marked, after, ha⟩ := exists_about h
  have hline : (linesOf source)[r.position.line - 1]? =
      some (lastLine before ++ marked ++ firstLine after) := by
    rw [ha.position]
    exact ha.line
  have hrows := ha.linesOf_text h hf
  refine ⟨by rw [Report.position, ha.origin], ha.length_pos, _, hline, fun he => ?_, fun he => ?_,
    idxOf_rowsBelow r filename _⟩
  · rw [hrows, linesOf_message h he]
    rfl
  · rw [hrows, linesOf_message_of_escapesNewline h he]
    rfl

theorem expression_missing_in_front_of_bar :
    ∃ line, (linesOf "DEF f() DO\n x = |1;\r\nEND")[1]? = some line ∧
      linesOf ((Report.mk .syntactic "expected expression" 16 1
          "DEF f() DO\n x = |1;\r\nEND").text "main.plc") =
        "error: expected expression".toList :: (Report.mk .syntactic "expected expression" 16 1
          "DEF f() DO\n x = |1;\r\nEND").rowsBelow "main.plc" line := by
  have ht : tokenize "DEF f() DO\n x = |1;\r\nEND" = .ok [⟨.identifier, "DEF", 0⟩,
      ⟨.identifier, "f", 4⟩, ⟨.operator, "(", 5⟩, ⟨.operator, ")", 6⟩, ⟨.identifier, "DO", 8⟩,
      ⟨.identifier, "x", 12⟩, ⟨.operator, "=", 14⟩, ⟨.operator, "|", 16⟩, ⟨.integer, "1", 17⟩,
      ⟨.operator, ";", 18⟩, ⟨.identifier, "END", 21⟩] := by decide +kernel
  have h : parse "DEF f() DO\n x = |1;\r\nEND" = .error (.reported
      ⟨.syntactic, "expected expression", 16, 1, "DEF f() DO\n x = |1;\r\nEND"⟩) := by
    rw [parse_of_tokenize ht]
    rfl
  have he : ¬EscapesNewline "DEF f() DO\n x = |1;\r\nEND" := by
    rintro ⟨o, he⟩
    rw [ht] at he
    cases he
  have hf : '\n' ∉ "main.plc".toList := by decide
  obtain ⟨-, -, line, hline, hrows, -, -⟩ := report_has_five_rows_unless_newline_escaped h hf
  exact ⟨line, hline, hrows he⟩

/-- A newline behind a backslash gives the report a sixth row. -/
theorem newline_in_message_breaks_row :
    parse "\"\\\n" = .error (.reported
      ⟨.lexical, "invalid escape sequence '\\\n'", 2, 1, "\"\\\n"⟩) ∧
    (linesOf ((Report.mk .lexical "invalid escape sequence '\\\n'" 2 1 "\"\\\n").text
      "main.plc")).length = 6 := by
  have ht : tokenize "\"\\\n" = .error ⟨.unknownEscape '\n', 2⟩ := by decide +kernel
  constructor
  · rw [parse_of_tokenize_error ht]
    rfl
  · decide +kernel

end FrontEnd
