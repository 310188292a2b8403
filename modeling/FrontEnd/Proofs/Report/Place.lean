import FrontEnd.Proofs.Report.Position
import Mathlib.Algebra.GroupWithZero.Nat
import Mathlib.Data.Prod.Lex

/-!
# Offsets and places

The places of a source are the columns of its lines, one of them behind the last character of each
line. Every offset has its place, and every place inside the source the one offset that is counted
from the lengths of the lines before it. Counting keeps the order, in which a line comes before all
places of the next one.
-/

namespace FrontEnd

/-- The nearest offset inside a source. -/
def clamped (source : String) (offset : Int) : Int := max 0 (min offset source.length)

/-- Where a line starts, behind the lines before it with their newlines. Lines count from zero. -/
def lineStart (source : String) (n : Nat) : Nat :=
  (((linesOf source).take n).map fun line => line.length + 1).sum

/-- The offset of a line and a column. -/
def offsetOf (source : String) (line column : Nat) : Nat :=
  lineStart source (line - 1) + (column - 1)

/-- That a source has a line and a column in it. -/
structure IsPlace (source : String) (line column : Nat) : Prop where
  line_pos : 1 ≤ line
  line_le : line ≤ (linesOf source).length
  column_pos : 1 ≤ column
  column_le : column ≤ ((linesOf source).getD (line - 1) []).length + 1

/-- The line of a position and, inside it, the column. -/
def Position.place (p : Position) : Nat ×ₗ Nat := toLex (p.line, p.column)

section

variable {source : String}

lemma lineStart_succ {n : Nat} {line : List Char} (h : (linesOf source)[n]? = some line) :
    lineStart source (n + 1) = lineStart source n + (line.length + 1) := by
  simp [lineStart, List.take_add_one, h]

lemma lineStart_mono (source : String) {m n : Nat} (h : m ≤ n) :
    lineStart source m ≤ lineStart source n := by
  obtain ⟨k, rfl⟩ := Nat.exists_eq_add_of_le h
  simp [lineStart, List.take_add]

/-- The lines of a text with their newlines have its characters and one newline more. -/
lemma sum_splitOn (cs : List Char) :
    ((cs.splitOn '\n').map fun line => line.length + 1).sum = cs.length + 1 := by
  induction cs with
  | nil => rfl
  | cons c cs ih =>
    rw [List.splitOn_cons_eq_if_modifyHead]
    split
    · simp [ih, Nat.add_comm]
    · cases hs : cs.splitOn '\n' with
      | nil => exact absurd hs (List.splitOn_ne_nil _ _)
      | cons line lines =>
        rw [hs] at ih
        simp only [List.map_cons, List.sum_cons, List.modifyHead_cons, List.length_cons] at ih ⊢
        omega

lemma lineStart_length : lineStart source (linesOf source).length = source.length + 1 := by
  rw [lineStart, List.take_length, linesOf, sum_splitOn, String.length_toList]

/-- The lines in front of the last one of a text, and that one, make up the text. -/
lemma lineStart_count {before after : List Char} (h : source.toList = before ++ after) :
    lineStart source (before.count '\n') + (lastLine before).length = before.length := by
  obtain ⟨hno, hlast⟩ | ⟨front, hfront⟩ := lastLine_cases before
  · simp [lineStart, List.count_eq_zero.mpr hno, hlast]
  · have hno := newline_notMem_lastLine before
    generalize lastLine before = last at hfront hno ⊢
    subst hfront
    have hcount : (front ++ '\n' :: last).count '\n' = (front.splitOn '\n').length := by
      rw [List.count_append, List.count_cons_self, List.count_eq_zero.mpr hno, length_splitOn]
    have hlines : linesOf source = front.splitOn '\n' ++ (last ++ after).splitOn '\n' := by
      rw [linesOf, h, List.append_assoc, List.cons_append, List.splitOn_append_cons_self]
    rw [lineStart, hlines, hcount, List.take_left, sum_splitOn, List.length_append,
      List.length_cons]
    omega

lemma IsPlace.exists_line {line column : Nat} (h : IsPlace source line column) :
    ∃ l, (linesOf source)[line - 1]? = some l ∧ column ≤ l.length + 1 := by
  have hpos := h.line_pos
  have hle := h.line_le
  have hlt : line - 1 < (linesOf source).length := by omega
  refine ⟨(linesOf source)[line - 1], List.getElem?_eq_getElem hlt, ?_⟩
  simpa [List.getD_eq_getElem?_getD, hlt] using h.column_le

/-- A place comes before the start of the next line. -/
lemma IsPlace.offsetOf_lt {line column : Nat} (h : IsPlace source line column) :
    offsetOf source line column < lineStart source line := by
  obtain ⟨l, hl, hcolumn⟩ := h.exists_line
  have hline := h.line_pos
  have hpos := h.column_pos
  have hsucc := lineStart_succ hl
  rw [Nat.sub_add_cancel hline] at hsucc
  rw [offsetOf]
  omega

lemma IsPlace.offsetOf_le {line column : Nat} (h : IsPlace source line column) :
    offsetOf source line column ≤ source.length := by
  have hlt := h.offsetOf_lt
  have hle := lineStart_mono source h.line_le
  rw [lineStart_length] at hle
  omega

/-- Places that come one after the other have offsets that do. -/
lemma IsPlace.offsetOf_lt_offsetOf {line column line' column' : Nat}
    (h : IsPlace source line column) (hlt : toLex (line, column) < toLex (line', column')) :
    offsetOf source line column < offsetOf source line' column' := by
  obtain hline | ⟨hline, hcolumn⟩ := Prod.Lex.toLex_lt_toLex.mp hlt
  · have hline : line < line' := hline
    have hstart := lineStart_mono source (show line ≤ line' - 1 by omega)
    exact h.offsetOf_lt.trans_le (hstart.trans (Nat.le_add_right _ _))
  · have hline : line = line' := hline
    have hcolumn : column < column' := hcolumn
    have hpos := h.column_pos
    rw [offsetOf, offsetOf, hline]
    omega

/-- One place has one offset. -/
lemma IsPlace.eq_of_offsetOf {line column line' column' : Nat} (h : IsPlace source line column)
    (h' : IsPlace source line' column')
    (heq : offsetOf source line column = offsetOf source line' column') :
    line = line' ∧ column = column' := by
  obtain hlt | hplace | hlt := lt_trichotomy (toLex (line, column)) (toLex (line', column'))
  · exact absurd heq (Nat.ne_of_lt (h.offsetOf_lt_offsetOf hlt))
  · exact Prod.mk.injEq .. ▸ toLex.injective hplace
  · exact absurd heq (Nat.ne_of_gt (h'.offsetOf_lt_offsetOf hlt))

lemma positionAt_eq (offset : Int) :
    let before := source.toList.take offset.toNat
    positionAt source offset =
      ⟨before.count '\n' + 1, (lastLine before).length + 1, before.length⟩ := by
  simp [positionAt, lastLine, List.rtakeWhile]

lemma offset_positionAt (source : String) (offset : Int) :
    ((positionAt source offset).offset : Int) = clamped source offset := by
  simp only [positionAt, clamped, List.length_take, String.length_toList]
  omega

lemma isPlace_positionAt (source : String) (offset : Int) :
    IsPlace source (positionAt source offset).line (positionAt source offset).column := by
  have hline := getElem?_linesOf (List.take_append_drop offset.toNat source.toList).symm
  rw [positionAt_eq]
  refine ⟨Nat.le_add_left _ _, (List.getElem?_eq_some_iff.mp hline).1, Nat.le_add_left _ _, ?_⟩
  simp [List.getD_eq_getElem?_getD, hline]

/-- Counting the lines and the columns up to a position gives its offset. -/
lemma offsetOf_positionAt (offset : Int) :
    offsetOf source (positionAt source offset).line (positionAt source offset).column =
      (positionAt source offset).offset := by
  rw [positionAt_eq]
  exact lineStart_count (List.take_append_drop offset.toNat source.toList).symm

/-- A place is that of its offset. -/
lemma IsPlace.positionAt_offsetOf {line column : Nat} (h : IsPlace source line column) :
    (positionAt source (offsetOf source line column)).line = line ∧
      (positionAt source (offsetOf source line column)).column = column := by
  refine (isPlace_positionAt source _).eq_of_offsetOf h ?_
  have hclamped := offset_positionAt source (offsetOf source line column)
  have hle := h.offsetOf_le
  rw [offsetOf_positionAt]
  simp only [clamped] at hclamped
  omega

/-- The order of offsets is the order of their places. -/
lemma place_lt_of_clamped_lt {a b : Int} (h : clamped source a < clamped source b) :
    (positionAt source a).place < (positionAt source b).place := by
  by_contra hle
  obtain hlt | heq := lt_or_eq_of_le (not_lt.mp hle)
  · have hoffset := (isPlace_positionAt source b).offsetOf_lt_offsetOf hlt
    rw [offsetOf_positionAt, offsetOf_positionAt] at hoffset
    have ha := offset_positionAt source a
    have hb := offset_positionAt source b
    omega
  · have ha := offset_positionAt source a
    have hb := offset_positionAt source b
    obtain ⟨hline, hcolumn⟩ := Prod.mk.injEq .. ▸ toLex.injective heq
    rw [← offsetOf_positionAt, ← hline, ← hcolumn, offsetOf_positionAt] at ha
    omega

lemma place_eq_of_clamped_eq {a b : Int} (h : clamped source a = clamped source b) :
    (positionAt source a).place = (positionAt source b).place := by
  have hoffset : (positionAt source a).offset = (positionAt source b).offset := by
    have ha := offset_positionAt source a
    have hb := offset_positionAt source b
    omega
  rw [← offsetOf_positionAt, ← offsetOf_positionAt] at hoffset
  obtain ⟨hline, hcolumn⟩ :=
    (isPlace_positionAt source a).eq_of_offsetOf (isPlace_positionAt source b) hoffset
  rw [Position.place, Position.place, hline, hcolumn]

end

/-- The line that a report shows is one of its source, without the carriage returns at its end. -/
lemma Report.shownLine_eq (r : Report) :
    ∃ line, (linesOf r.source)[r.position.line - 1]? = some line ∧
      r.shownLine = shorn line := by
  obtain ⟨line, hline, -⟩ := (isPlace_positionAt r.source r.offset).exists_line
  refine ⟨line, hline, ?_⟩
  have hline : (linesOf r.source)[r.position.line - 1]? = some line := hline
  simp [Report.shownLine, List.getD_eq_getElem?_getD, hline]

/-- Positions are a bijection between the offsets inside a source and its places, which keeps the
order: the offset of a position is counted from the lengths of the lines before it, later offsets
have later places, and every place is that of one offset. So the line that a report shows exists. -/
theorem positions_count_offsets (source : String) :
    (∀ offset : Int, let p := positionAt source offset
      p.offset = clamped source offset ∧ IsPlace source p.line p.column ∧
        offsetOf source p.line p.column = p.offset) ∧
    (∀ a b : Int, a ≤ b → (positionAt source a).place ≤ (positionAt source b).place ∧
      (clamped source a ≠ clamped source b →
        (positionAt source a).place < (positionAt source b).place)) ∧
    (∀ line column, IsPlace source line column → ∃! offset : Int,
      (0 ≤ offset ∧ offset ≤ source.length) ∧ (positionAt source offset).line = line ∧
        (positionAt source offset).column = column) ∧
    ∀ r : Report, r.source = source → ∀ filename, ∃ line,
      (linesOf source)[r.position.line - 1]? = some line ∧
        (r.rows filename)[3]? = some (toString r.position.line ++ " | " ++
          String.ofList (shorn line)) := by
  refine ⟨?counted, ?ordered, ?onto, ?shown⟩
  case counted =>
    intro offset
    exact ⟨offset_positionAt source offset, isPlace_positionAt source offset,
      offsetOf_positionAt offset⟩
  case ordered =>
    intro a b hab
    have hclamped : clamped source a ≤ clamped source b := by
      simp only [clamped]
      omega
    obtain hlt | heq := lt_or_eq_of_le hclamped
    · have hplace := place_lt_of_clamped_lt hlt
      exact ⟨hplace.le, fun _ => hplace⟩
    · exact ⟨(place_eq_of_clamped_eq heq).le, fun hne => absurd heq hne⟩
  case onto =>
    intro line column h
    have hle := h.offsetOf_le
    refine ⟨offsetOf source line column, ⟨by omega, h.positionAt_offsetOf⟩, ?_⟩
    rintro offset ⟨⟨hnonneg, hinside⟩, rfl, rfl⟩
    have hoffset := offset_positionAt source offset
    rw [offsetOf_positionAt, hoffset, clamped]
    omega
  case shown =>
    rintro r rfl filename
    obtain ⟨line, hline, hshown⟩ := r.shownLine_eq
    exact ⟨line, hline, by simp [Report.rows, hshown]⟩

end FrontEnd
