import FrontEnd.Report
import Mathlib.Data.List.DropRight
import Mathlib.Tactic.Common

/-!
# Lines around an offset

The line that an offset lies in consists of the characters since the last newline in front of the
offset and of those up to the first one behind it. The newlines in front count the lines before it.
-/

namespace FrontEnd

lemma shorn_eq (line : List Char) : shorn line = line.rdropWhile (· == '\r') := rfl

/-- The characters behind the last newline. -/
def lastLine (cs : List Char) : List Char := cs.rtakeWhile (· != '\n')

/-- The characters in front of the first newline. -/
def firstLine (cs : List Char) : List Char := cs.takeWhile (· != '\n')

lemma newline_notMem_firstLine (cs : List Char) : '\n' ∉ firstLine cs := fun h => by
  simpa using List.mem_takeWhile_imp h

lemma newline_notMem_lastLine (cs : List Char) : '\n' ∉ lastLine cs := fun h => by
  simpa using List.mem_rtakeWhile_imp h

/-- A text without a newline is its own last line, and any other one ends with one. -/
lemma lastLine_cases (cs : List Char) :
    ('\n' ∉ cs ∧ lastLine cs = cs) ∨ ∃ front, cs = front ++ '\n' :: lastLine cs := by
  by_cases h : '\n' ∈ cs
  · refine .inr ?_
    induction cs using List.reverseRecOn with
    | nil => cases h
    | append_singleton cs c ih =>
      by_cases hc : c = '\n'
      · subst hc
        exact ⟨cs, by simp [lastLine]⟩
      · have hmem : '\n' ∈ cs := by simpa [Ne.symm hc] using h
        obtain ⟨front, hfront⟩ := ih hmem
        have hlast : lastLine (cs ++ [c]) = lastLine cs ++ [c] :=
          List.rtakeWhile_concat_pos _ _ _ (by simpa using hc)
        refine ⟨front, ?_⟩
        rw [hlast, ← List.cons_append, ← List.append_assoc, ← hfront]
  · refine .inl ⟨h, List.rtakeWhile_eq_self_iff.mpr fun c hc => ?_⟩
    simpa using fun he : c = '\n' => h (he ▸ hc)

lemma length_splitOn (cs : List Char) : (cs.splitOn '\n').length = cs.count '\n' + 1 := by
  induction cs with
  | nil => rfl
  | cons c cs ih =>
    rw [List.splitOn_cons_eq_if_modifyHead, List.count_cons]
    split
    · rw [List.length_cons, ih]
    · rw [List.length_modifyHead, ih]

lemma head?_splitOn (cs : List Char) : (cs.splitOn '\n')[0]? = some (firstLine cs) := by
  induction cs with
  | nil => rfl
  | cons c cs ih =>
    rw [List.splitOn_cons_eq_if_modifyHead]
    by_cases hc : c = '\n'
    · simp [hc, firstLine]
    · cases hs : cs.splitOn '\n' with
      | nil => exact absurd hs (List.splitOn_ne_nil _ _)
      | cons line lines =>
        have hline : line = firstLine cs := by simpa [hs] using ih
        simp [hc, firstLine, hline]

/-- Lines without newlines are those of a text in which each of them is ended by one. -/
lemma splitOn_flatMap_newline {lines : List (List Char)} (h : ∀ line ∈ lines, '\n' ∉ line) :
    (lines.flatMap fun line => line ++ ['\n']).splitOn '\n' = lines ++ [[]] := by
  induction lines with
  | nil => rfl
  | cons line lines ih =>
    rw [List.forall_mem_cons] at h
    rw [List.flatMap_cons, List.append_assoc, List.singleton_append, List.splitOn_append_cons_self,
      List.splitOn_eq_singleton h.1, ih h.2]
    rfl

/-- A line without a newline in front of another text is the beginning of its first line. -/
lemma firstLine_append {cs : List Char} (h : '\n' ∉ cs) (ds : List Char) :
    firstLine (cs ++ ds) = cs ++ firstLine ds :=
  List.takeWhile_append_of_pos fun c hc => by simpa using fun he : c = '\n' => h (he ▸ hc)

/-- The line between the newlines around an offset. -/
theorem getElem?_linesOf {source : String} {before after : List Char}
    (h : source.toList = before ++ after) :
    (linesOf source)[before.count '\n']? = some (lastLine before ++ firstLine after) := by
  rw [linesOf, h]
  obtain ⟨hno, hlast⟩ | ⟨front, hfront⟩ := lastLine_cases before
  · rw [List.count_eq_zero.mpr hno, head?_splitOn, firstLine_append hno, hlast]
  · have hno := newline_notMem_lastLine before
    generalize lastLine before = last at hfront hno
    subst hfront
    have hcount : (front ++ '\n' :: last).count '\n' = (front.splitOn '\n').length := by
      rw [List.count_append, List.count_cons_self, List.count_eq_zero.mpr hno, length_splitOn]
    rw [hcount, List.append_assoc, List.cons_append, List.splitOn_append_cons_self,
      List.getElem?_append_right (Nat.le_refl _), Nat.sub_self, head?_splitOn,
      firstLine_append hno]

/-- The position of an offset inside a source. -/
lemma positionAt_of_append {source : String} {before after : List Char}
    (h : source.toList = before ++ after) :
    positionAt source before.length =
      ⟨before.count '\n' + 1, (lastLine before).length + 1, before.length⟩ := by
  have hbefore : source.toList.take before.length = before := by rw [h, List.take_left]
  simp [positionAt, hbefore, lastLine, List.rtakeWhile]

end FrontEnd
