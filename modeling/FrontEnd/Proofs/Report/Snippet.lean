import FrontEnd.Proofs.Diagnostics
import FrontEnd.Proofs.Lexical.Lines
import FrontEnd.Proofs.Prefix.ErrorPlace
import FrontEnd.Proofs.Printing.Constant
import FrontEnd.Proofs.Report.Position

/-!
# What a report shows

The carets below the line of a report and the range of its diagnostic mark the same characters: the
token that the parser fails at, or one character if there is no such token.
-/

namespace FrontEnd

open Grammar

/-- The characters of a line from a place on. -/
def markedIn (line : List Char) (start length : Nat) : List Char := (line.drop start).take length

lemma markedIn_append (front marked behind : List Char) :
    markedIn (front ++ marked ++ behind) front.length marked.length = marked := by
  rw [markedIn, List.append_assoc, List.drop_left, List.take_left]

/-- That a text ends with a line and with carets below it, which begin at a place of the line.
Both rows have a margin of the same width. -/
def Underlines (text : String) (line : List Char) (start length : Nat) : Prop :=
  ∃ above margin gutter, linesOf text = above ++ [margin ++ line,
    gutter ++ List.replicate start ' ' ++ List.replicate length '^'] ∧
    margin.length = gutter.length ∧ '^' ∉ gutter

/-- That the parser fails in front of a token of a source. -/
def FailsAt (source : String) (t : Token) : Prop :=
  ∃ ts cause rest, tokenize source = .ok ts ∧
    program maxNesting ts = .error (.syntactic cause) (t :: rest)

lemma FailsAt.unique {source : String} {t u : Token} (ht : FailsAt source t)
    (hu : FailsAt source u) : t = u := by
  obtain ⟨ts, cause, rest, hts, ht⟩ := ht
  obtain ⟨us, cause', rest', hus, hu⟩ := hu
  rw [hts] at hus
  cases hus
  rw [ht] at hu
  cases hu
  rfl

/-- Characters of a source that a report is about: a token, or none. -/
structure Report.About (r : Report) (source : String) (before marked after : List Char) :
    Prop where
  whole : source.toList = before ++ marked ++ after
  origin : r.source = source
  offset : r.offset = before.length
  marked : (∃ t, FailsAt source t ∧ marked = t.text.toList ∧ t.kind.Spells marked ∧
      r.offset = t.offset ∧ r.length = marked.length) ∨
    ((¬∃ t, FailsAt source t) ∧ marked = [] ∧ r.length = 1)

lemma parse_empty : parse "" = .ok ⟨[], []⟩ := by
  rw [parse_of_tokenize (tokenize_of_lexed (.nil 0)), program_nil]

lemma exists_about_of_lexical {source : String} {e : LexicalError}
    (h : tokenize source = .error e) :
    ∃ before after, (e.report source).About source before [] after := by
  obtain ⟨front, c, r, ts, hsource, -, -, -, ho⟩ := tokenize_eq_error_iff.mp h
  have hinput : (Scan.token (c :: r)).taken ++ (Scan.token (c :: r)).rest = c :: r :=
    Scan.input_token (c :: r)
  refine ⟨front ++ (Scan.token (c :: r)).taken, (Scan.token (c :: r)).rest, ?_, rfl, ?_, .inr ?_⟩
  · rw [List.append_nil, List.append_assoc, hinput, hsource]
  · simp [LexicalError.report, ho]
  · refine ⟨?_, rfl, rfl⟩
    rintro ⟨t, ts, cause, rest, ht, -⟩
    rw [h] at ht
    cases ht

lemma exists_about_of_syntactic {source : String} {ts rest : List Token} {cause : SyntaxCause}
    (h : tokenize source = .ok ts) (he : program maxNesting ts = .error (.syntactic cause) rest)
    {r : Report} (hr : failureOf source ts rest (.syntactic cause) = .reported r) :
    ∃ before marked after, r.About source before marked after := by
  have hl := tokenize_eq_ok_iff.mp h
  obtain ⟨c, rfl⟩ := Rule.leaves_error (leaves_program maxNesting) he
  cases hr
  cases rest with
  | cons t rest =>
    obtain ⟨before, after, hsource, ho, hs⟩ := hl.mem (t := t) (by simp)
    refine ⟨before, t.text.toList, after, hsource, rfl, by simp [ho], .inl ?_⟩
    exact ⟨t, ⟨_, cause, rest, h, he⟩, rfl, hs, rfl, by simp [Token.length, ← String.length_toList]⟩
  | nil =>
    -- No tokens are a program, so that there is a last token to stand behind.
    obtain rfl | ⟨c, t, rfl⟩ := List.eq_nil_or_concat' c
    · cases he
    · obtain ⟨before, after, hsource, ho, hs⟩ := hl.mem (t := t) (by simp)
      refine ⟨before ++ t.text.toList, [], after, by simpa using hsource, rfl, ?_, .inr ?_⟩
      · simp [Token.stop, Token.length, ← String.length_toList, ho]
      · refine ⟨?_, rfl, by simp⟩
        rintro ⟨u, us, cause', rest', hu, he'⟩
        rw [h] at hu
        cases hu
        rw [he] at he'
        cases he'

/-- Every report is about characters of the source. -/
lemma exists_about {source : String} {r : Report} (h : parse source = .error (.reported r)) :
    ∃ before marked after, r.About source before marked after := by
  obtain ⟨e, ht, hp⟩ | ⟨ts, ht, ⟨p, -, hp⟩ | ⟨problem, rest, he, hp⟩⟩ := parse_cases source
  · rw [hp] at h
    cases h
    obtain ⟨before, after, ha⟩ := exists_about_of_lexical ht
    exact ⟨before, [], after, ha⟩
  · rw [hp] at h
    cases h
  · rw [hp] at h
    cases problem with
    | numeral kind => cases h
    | syntactic cause => exact exists_about_of_syntactic ht he (by injection h)

lemma shorn_append {front : List Char} {c : Char} (hc : c ≠ '\r') (cs : List Char) :
    shorn (front ++ [c] ++ cs) = front ++ [c] ++ shorn cs := by
  induction cs using List.reverseRecOn with
  | nil => simp [shorn_eq, hc]
  | append_singleton cs d ih =>
    rw [← List.append_assoc]
    by_cases hd : d = '\r'
    · rw [hd, shorn_eq, List.rdropWhile_concat_pos _ _ _ (by simp), ← shorn_eq, ih, shorn_eq,
        shorn_eq, List.rdropWhile_concat_pos _ _ _ (by simp)]
    · rw [shorn_eq, List.rdropWhile_concat_neg _ _ _ (by simpa using hd), shorn_eq,
        List.rdropWhile_concat_neg _ _ _ (by simpa using hd), List.append_assoc]

namespace Report.About

variable {r : Report} {source : String} {before marked after : List Char}

lemma position (h : r.About source before marked after) :
    r.position = ⟨before.count '\n' + 1, (lastLine before).length + 1, before.length⟩ := by
  have hwhole : source.toList = before ++ (marked ++ after) := by rw [h.whole, List.append_assoc]
  rw [Report.position, h.origin, h.offset]
  exact positionAt_of_append hwhole

/-- An empty source is a program, so that a report always has its source at hand. -/
lemma source_ne_empty (h : r.About source before marked after)
    (hp : parse source = .error (.reported r)) : r.source ≠ "" := by
  rw [h.origin]
  rintro rfl
  rw [parse_empty] at hp
  cases hp

lemma newline_notMem (h : r.About source before marked after) : '\n' ∉ marked := by
  obtain ⟨t, -, -, hs, -, -⟩ | ⟨-, rfl, -⟩ := h.marked
  · exact hs.newline_notMem
  · exact List.not_mem_nil

/-- The line of a report: what stands in it before the characters marked, these, and the others. -/
lemma line (h : r.About source before marked after) :
    (linesOf source)[before.count '\n']? =
      some (lastLine before ++ marked ++ firstLine after) := by
  have hwhole : source.toList = before ++ (marked ++ after) := by rw [h.whole, List.append_assoc]
  rw [getElem?_linesOf hwhole, firstLine_append h.newline_notMem, List.append_assoc]

lemma shownLine (h : r.About source before marked after) :
    r.shownLine = shorn (lastLine before ++ marked ++ firstLine after) := by
  have hline : (linesOf source).getD (before.count '\n') [] =
      lastLine before ++ marked ++ firstLine after := by
    rw [List.getD_eq_getElem?_getD, h.line, Option.getD_some]
  simp only [Report.shownLine, h.position, h.origin, Nat.add_sub_cancel, hline]

lemma newline_notMem_shownLine (h : r.About source before marked after) :
    '\n' ∉ r.shownLine := by
  have hline : '\n' ∉ lastLine before ++ marked ++ firstLine after := by
    simp [newline_notMem_lastLine, h.newline_notMem, newline_notMem_firstLine]
  rw [h.shownLine]
  exact fun hmem => hline ((List.rdropWhile_prefix _ _).mem hmem)

/-- Carriage returns are dropped behind a token only. -/
lemma shorn_line {t : Token} (hs : t.kind.Spells marked) :
    shorn (lastLine before ++ marked ++ firstLine after) =
      lastLine before ++ marked ++ shorn (firstLine after) := by
  obtain ⟨front, c, rfl, hc⟩ := hs.exists_last
  rw [← List.append_assoc]
  exact shorn_append hc _

lemma length_pos (h : r.About source before marked after) : 0 < r.length := by
  obtain ⟨t, -, -, hs, -, hl⟩ | ⟨-, -, hl⟩ := h.marked
  · have hne := List.length_pos_iff.mpr hs.ne_nil
    omega
  · omega

/-- There are as many carets as the report has characters. -/
lemma underline (h : r.About source before marked after) : (r.underline : Int) = r.length := by
  have hcolumn : r.position.column = (lastLine before).length + 1 := by rw [h.position]
  rw [Report.underline, h.shownLine, hcolumn]
  obtain ⟨t, -, -, hs, -, hl⟩ | ⟨-, -, hl⟩ := h.marked
  · have hne := List.length_pos_iff.mpr hs.ne_nil
    rw [shorn_line hs, hl]
    simp only [List.length_append]
    omega
  · rw [hl]
    omega

end Report.About

lemma linesOf_intercalate_cons (row : String) {rows : List String} (hne : rows ≠ []) :
    linesOf ("\n".intercalate (row :: rows)) =
      linesOf row ++ linesOf ("\n".intercalate rows) := by
  obtain ⟨second, others, rfl⟩ := List.exists_cons_of_ne_nil hne
  simp only [linesOf, String.toList_intercalate, List.map_cons, List.intercalate_cons_cons]
  rw [show "\n".toList = ['\n'] from rfl, List.append_assoc, List.singleton_append,
    List.splitOn_append_cons_self]

/-- Rows without newlines are the lines of their text. -/
lemma linesOf_rows {rows : List String} (hne : rows ≠ []) (h : ∀ row ∈ rows, '\n' ∉ row.toList) :
    linesOf ("\n".intercalate rows) = rows.map String.toList := by
  rw [linesOf, String.toList_intercalate]
  apply List.splitOn_intercalate
  · simpa using h
  · simpa using hne

/-- The last two of the rows that a text is made of are its last two lines if they are free of
newlines. -/
lemma linesOf_intercalate (rows : List String) {row last : String} (hrow : '\n' ∉ row.toList)
    (hlast : '\n' ∉ last.toList) :
    ∃ above, linesOf ("\n".intercalate (rows ++ [row, last])) =
      above ++ [row.toList, last.toList] := by
  induction rows with
  | nil => exact ⟨[], linesOf_rows (by simp) (by simp [hrow, hlast])⟩
  | cons first rows ih =>
    obtain ⟨above, habove⟩ := ih
    refine ⟨linesOf first ++ above, ?_⟩
    rw [List.cons_append, linesOf_intercalate_cons first (by simp), habove, List.append_assoc]

lemma notMem_toList_toString {c : Char} (hc : isDigit c = false) (n : Nat) :
    c ∉ (toString n).toList := by
  intro h
  have h : c ∈ Nat.toDigits 10 n := by simpa using h
  rw [isDigit_of_mem_toDigits h] at hc
  cases hc

lemma text_eq_rows {r : Report} (hsource : r.source ≠ "") (filename : String) :
    r.text filename = "\n".intercalate (r.rows filename) := by
  rw [Report.text, if_neg (by simpa [String.isEmpty_iff] using hsource)]

/-- The text of a report with its source ends with the line and the carets. -/
lemma underlines_text {r : Report} (hsource : r.source ≠ "") (hline : '\n' ∉ r.shownLine)
    (filename : String) :
    Underlines (r.text filename) r.shownLine (r.position.column - 1) r.underline := by
  let number := toString r.position.line
  let gutter := Report.spaces (number.length + 1)
  have hrow : '\n' ∉ (number ++ " | " ++ String.ofList r.shownLine).toList := by
    simpa using ⟨notMem_toList_toString rfl _, hline⟩
  have hcarets : '\n' ∉ (gutter ++ "| " ++ Report.spaces (r.position.column - 1) ++
      String.ofList (List.replicate r.underline '^')).toList := by
    simp [gutter, Report.spaces]
  obtain ⟨above, habove⟩ := linesOf_intercalate
    ["error: " ++ r.message,
      gutter ++ "--> " ++ filename ++ ":" ++ number ++ ":" ++ toString r.position.column,
      gutter ++ "|"] hrow hcarets
  refine ⟨above, (number ++ " | ").toList, (gutter ++ "| ").toList, ?_, ?_, ?_⟩
  · rw [text_eq_rows hsource]
    refine habove.trans ?_
    simp [Report.spaces]
  · simp [gutter, Report.spaces, String.length_toList]
  · simp [gutter, Report.spaces]

/-- The carets and the range of a report mark the same characters of one line. If the parser fails
at a token, these are the characters of that token, in the whole line and in the one shown without
its carriage returns; otherwise one character is marked, at the end of the line at the latest. -/
theorem carets_and_range_mark_the_same {source : String} {r : Report}
    (h : parse source = .error (.reported r)) :
    (0 ≤ r.offset ∧ r.offset ≤ source.length) ∧
    r.diagnostic.start.line = (source.toList.take r.offset.toNat).count '\n' ∧
    r.diagnostic.stop.line = r.diagnostic.start.line ∧
    r.diagnostic.start.character = (r.position.column : Int) - 1 ∧
    r.diagnostic.stop.character - r.diagnostic.start.character = r.length ∧
    ∃ line, (linesOf source)[r.diagnostic.start.line]? = some line ∧
      (∀ filename,
        Underlines (r.text filename) (shorn line) (r.position.column - 1) r.length.toNat) ∧
      (∀ t, FailsAt source t → r.offset = t.offset ∧ r.length = t.text.length ∧
        markedIn line (r.position.column - 1) r.length.toNat = t.text.toList ∧
        markedIn (shorn line) (r.position.column - 1) r.length.toNat = t.text.toList) ∧
      ((¬∃ t, FailsAt source t) → r.length = 1 ∧ r.position.column - 1 ≤ line.length) := by
  obtain ⟨before, marked, after, ha⟩ := exists_about h
  have hsource := ha.source_ne_empty h
  have hlength : source.length = before.length + marked.length + after.length := by
    rw [← String.length_toList, ha.whole, List.length_append, List.length_append]
  have hbefore : source.toList.take r.offset.toNat = before := by
    rw [ha.offset, Int.toNat_natCast, ha.whole, List.append_assoc, List.take_left]
  have hnumber : r.diagnostic.start.line = before.count '\n' := by
    simp [Report.diagnostic, ha.position]
  have hcolumn : r.position.column - 1 = (lastLine before).length := by
    rw [ha.position, Nat.add_sub_cancel]
  rw [hbefore, hnumber]
  refine ⟨⟨by rw [ha.offset]; omega, by rw [ha.offset]; omega⟩, rfl, hnumber, ?_, ?_,
    lastLine before ++ marked ++ firstLine after, ha.line, ?_, ?_, ?_⟩
  · simp [Report.diagnostic, ha.position]
  · simp only [Report.diagnostic]
    omega
  · intro filename
    have hshown := underlines_text hsource ha.newline_notMem_shownLine filename
    have hcarets : r.underline = r.length.toNat := by rw [← ha.underline, Int.toNat_natCast]
    rwa [ha.shownLine, hcarets] at hshown
  · intro t ht
    obtain ⟨u, hu, rfl, hs, ho, hl⟩ | ⟨hno, -, -⟩ := ha.marked
    · obtain rfl := ht.unique hu
      refine ⟨ho, by rw [hl, String.length_toList], ?_, ?_⟩
      · rw [hl, hcolumn, Int.toNat_natCast]
        exact markedIn_append _ _ _
      · rw [hl, hcolumn, Int.toNat_natCast, Report.About.shorn_line hs]
        exact markedIn_append _ _ _
    · exact absurd ⟨t, ht⟩ hno
  · intro hno
    obtain ⟨u, hu, -⟩ | ⟨-, -, hl⟩ := ha.marked
    · exact absurd ⟨u, hu⟩ hno
    · refine ⟨hl, ?_⟩
      rw [hcolumn, List.append_assoc, List.length_append]
      exact Nat.le_add_right _ _

theorem integer_in_place_of_name_marked :
    ∃ line, (linesOf "LET\n 12;\r")[1]? = some line ∧
      markedIn line 1 2 = ['1', '2'] ∧ markedIn (shorn line) 1 2 = ['1', '2'] := by
  have ht : tokenize "LET\n 12;\r" = .ok [⟨.identifier, "LET", 0⟩, ⟨.integer, "12", 5⟩,
      ⟨.operator, ";", 7⟩] := by decide +kernel
  have hp : program maxNesting [⟨.identifier, "LET", 0⟩, ⟨.integer, "12", 5⟩,
      ⟨.operator, ";", 7⟩] = .error (.syntactic .fieldName)
      [⟨.integer, "12", 5⟩, ⟨.operator, ";", 7⟩] := rfl
  have h : parse "LET\n 12;\r" = .error (.reported
      ⟨.syntactic, "expected field name", 5, 2, "LET\n 12;\r"⟩) := by
    rw [parse_of_tokenize ht, hp]
    rfl
  obtain ⟨-, -, -, -, -, line, hline, -, hat, -⟩ := carets_and_range_mark_the_same h
  obtain ⟨-, -, hmarked, hshorn⟩ := hat _ ⟨_, _, _, ht, hp⟩
  exact ⟨line, hline, hmarked, hshorn⟩

end FrontEnd
