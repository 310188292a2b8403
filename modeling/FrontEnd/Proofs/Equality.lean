import FrontEnd.Proofs.Dump
import FrontEnd.Proofs.Dump.Captions
import FrontEnd.Proofs.Report.Position

/-!
# Equality of programs and of their dumps

Equality of the programs that are read from sources is an equivalence. It compares booleans,
integers and decimals by their numeric values, and is the equality of dumps in all else: equal
programs have dumps that differ only in lines where both show such a number.
-/

namespace FrontEnd

/-- A source with the program it is read as. -/
structure ReadProgram where
  source : String
  program : Program
  read : parse source = .ok program

/-- Captions that are the same, or show constants of one numeric value at one depth. -/
inductive Caption.Agree : Caption → Caption → Prop
  | same (c : Caption) : Agree c c
  | value {depth : Nat} {v w : Literal} {x : ℚ} (hv : v.value? = some x) (hw : w.value? = some x) :
    Agree (constant depth v) (constant depth w)

/-- Captions agree if they are the same with constants replaced by those that stand for their
values. -/
lemma Caption.agree_of_canonical {c d : Caption}
    (h : c.mapConstant Literal.canonical = d.mapConstant Literal.canonical) : c.Agree d := by
  cases c with
  | words depth heading =>
    cases d with
    | words depth' heading' =>
      cases h
      exact .same _
    | constant depth' w => cases h
  | constant depth v =>
    cases d with
    | words depth' heading' => cases h
    | constant depth' w =>
      obtain ⟨rfl, hvalue⟩ := Caption.constant.inj h
      obtain rfl | ⟨x, hv, hw⟩ := Literal.canonical_eq_iff.mp hvalue
      · exact .same _
      · exact .value hv hw

/-- Programs that are the same with every constant replaced by the one that stands for its value
have the same captions but for constants of one numeric value. -/
lemma Program.agree_captions {p q : Program}
    (h : p.mapConstants Literal.canonical = q.mapConstants Literal.canonical) :
    List.Forall₂ Caption.Agree p.captions q.captions := by
  have hmap : p.captions.map (Caption.mapConstant Literal.canonical) =
      q.captions.map (Caption.mapConstant Literal.canonical) := by
    rw [← captions_mapConstants, ← captions_mapConstants, h]
  rw [← List.forall₂_eq_eq_eq, List.forall₂_map_left_iff, List.forall₂_map_right_iff] at hmap
  apply hmap.imp
  intro c d hcd
  exact Caption.agree_of_canonical hcd

namespace ReadProgram

lemma equivalent_iff (p q : ReadProgram) : p.program.equivalent q.program = true ↔
    p.program.mapConstants Literal.canonical = q.program.mapConstants Literal.canonical :=
  Program.equivalent_iff (wellSpelled_of_parse p.read) q.program

lemma equivalence : Equivalence fun p q : ReadProgram => p.program.equivalent q.program = true where
  refl p := (equivalent_iff p p).mpr rfl
  symm {p q} h := by
    rw [equivalent_iff] at h ⊢
    exact h.symm
  trans {p q r} h h' := by
    rw [equivalent_iff] at h h' ⊢
    exact h.trans h'

end ReadProgram

/-- The lines of the dump of a program read from a source show its captions. -/
lemma linesOf_dump {source : String} {p : Program} (h : parse source = .ok p) :
    linesOf p.tree.dump.text = p.captions.map Caption.line ++ [[]] := by
  have hs := wellSpelled_of_parse h
  have hrows := Program.rows_tree hs
  have hheading := Outline.isHeading_rows p.tree.outline (Tree.plain_outline p.tree hs) 0
  have hlines : p.tree.dump.text.toList =
      (p.captions.map Caption.line).flatMap fun line => line ++ ['\n'] := by
    rw [dump_of_parse h, Listing.toList_text, hrows, List.flatMap_map, List.flatMap_map]
    simp only [Row.toList_text, Caption.line]
  rw [linesOf, hlines]
  apply splitOn_flatMap_newline
  rw [List.forall_mem_map]
  intro c hc
  rw [hrows, List.forall_mem_map] at hheading
  exact Row.newline_notMem_line (hheading c hc)

/-- Equality is an equivalence of the programs read from sources. It compares constants of any kind
by their numeric values where they have one: equal programs are those that are the same when each
constant is replaced by one that stands for all of its value. Programs with the same dump are equal.
The dumps of equal programs have as many lines, and show the same on each but for constants of one
numeric value. -/
theorem equality_is_dump_equality_but_for_numbers :
    Equivalence (fun p q : ReadProgram => p.program.equivalent q.program = true) ∧
    (∀ v w : Literal, v.canonical = w.canonical ↔
      (∃ x, v.value? = some x ∧ w.value? = some x) ∨
        (v.value? = none ∧ w.value? = none ∧ v = w)) ∧
    (∀ p q : ReadProgram, p.program.equivalent q.program = true ↔
      p.program.mapConstants Literal.canonical = q.program.mapConstants Literal.canonical) ∧
    (∀ p q : ReadProgram, p.program.tree.dump.text = q.program.tree.dump.text →
      p.program.equivalent q.program = true) ∧
    (∀ p : ReadProgram, p.program.tree.dump.stop = none ∧
      linesOf p.program.tree.dump.text = p.program.captions.map Caption.line ++ [[]]) ∧
    ∀ p q : ReadProgram, p.program.equivalent q.program = true →
      List.Forall₂ Caption.Agree p.program.captions q.program.captions := by
  refine ⟨?_, fun v w => ?_, fun p q => ?_, fun p q h => ?_, fun p => ?_, fun p q h => ?_⟩
  · exact ReadProgram.equivalence
  · exact Literal.canonical_eq_iff.trans Literal.sameValue_iff
  · exact p.equivalent_iff q
  · rw [eq_of_dump_text p.read q.read h]
    exact ReadProgram.equivalence.refl q
  · refine ⟨?_, linesOf_dump p.read⟩
    rw [dump_of_parse p.read]
  · exact Program.agree_captions ((p.equivalent_iff q).mp h)

theorem one_and_one_point_zero_equal_in_fields :
    ∃ p q : ReadProgram, p.source = "LET x = 1;" ∧ q.source = "LET x = 1.0;" ∧
      p.program.equivalent q.program = true ∧
      p.program.tree.dump.text = "Source\n  Field x\n    Literal(1)\n" ∧
      q.program.tree.dump.text = "Source\n  Field x\n    Literal(1.0)\n" ∧
      List.Forall₂ Caption.Agree p.program.captions q.program.captions := by
  have hinteger : tokenize "LET x = 1;" = .ok [⟨.identifier, "LET", 0⟩, ⟨.identifier, "x", 4⟩,
      ⟨.operator, "=", 6⟩, ⟨.integer, "1", 8⟩, ⟨.operator, ";", 9⟩] := by decide +kernel
  have hdecimal : tokenize "LET x = 1.0;" = .ok [⟨.identifier, "LET", 0⟩, ⟨.identifier, "x", 4⟩,
      ⟨.operator, "=", 6⟩, ⟨.decimal, "1.0", 8⟩, ⟨.operator, ";", 11⟩] := by decide +kernel
  have hp : parse "LET x = 1;" = .ok ⟨[⟨"x", false, some (.literal (.integer 1))⟩], []⟩ := by
    rw [parse_of_tokenize hinteger]
    rfl
  have hq : parse "LET x = 1.0;" =
      .ok ⟨[⟨"x", false, some (.literal (.decimal ⟨false, .finite 10 (-1)⟩))⟩], []⟩ := by
    rw [parse_of_tokenize hdecimal]
    rfl
  have hequal : (Program.mk [⟨"x", false, some (.literal (.integer 1))⟩] []).equivalent
      ⟨[⟨"x", false, some (.literal (.decimal ⟨false, .finite 10 (-1)⟩))⟩], []⟩ = true := by
    decide +kernel
  obtain ⟨-, -, -, -, -, hlines⟩ := equality_is_dump_equality_but_for_numbers
  exact ⟨⟨_, _, hp⟩, ⟨_, _, hq⟩, rfl, rfl, hequal, rfl, rfl, hlines ⟨_, _, hp⟩ ⟨_, _, hq⟩ hequal⟩

end FrontEnd
