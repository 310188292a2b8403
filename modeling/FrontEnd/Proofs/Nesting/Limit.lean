import FrontEnd.Proofs.Grammar.Acceptance
import FrontEnd.Proofs.Nesting.Termination

/-!
# The nesting limit

Programs that are not nested too deeply are read as if there were no limit. All others are reported
at the first expression or statement that is one level too deep.
-/

namespace FrontEnd

lemma deepest_le_iff {α : Type} {w : α → Nat} {n : Nat} {as : List α} :
    deepest w as ≤ n ↔ ∀ a ∈ as, w a ≤ n := by
  induction as with
  | nil => simp
  | cons a as ih => rw [deepest_cons, Nat.max_le, ih, List.forall_mem_cons]

/-- That the values of fields and the statements of methods are nested no deeper than a limit. -/
structure Program.NestedWithin (p : Program) (limit : Nat) : Prop where
  fields : ∀ f ∈ p.fields, ∀ e ∈ f.value, e.nesting ≤ limit
  methods : ∀ m ∈ p.methods, ∀ s ∈ m.body, s.nesting ≤ limit

lemma optionNesting_le_iff {o : Option Expression} {n : Nat} :
    optionNesting o ≤ n ↔ ∀ e ∈ o, e.nesting ≤ n := by
  cases o <;> simp [optionNesting]

lemma Program.nestedWithin_iff {p : Program} {limit : Nat} :
    p.NestedWithin limit ↔ p.nesting ≤ limit := by
  have hnesting : p.nesting = max (deepest (fun f : Field => optionNesting f.value) p.fields)
      (deepest (fun m : Method => Statement.innerAll m.body) p.methods) := rfl
  simp only [hnesting, Nat.max_le, deepest_le_iff, optionNesting_le_iff, Statement.innerAll_eq]
  exact ⟨fun h => ⟨h.fields, h.methods⟩, fun h => ⟨h.1, h.2⟩⟩

namespace Descent

open Script Relation StateTransition Grammar

variable {ts rest ahead : List Token} {p : Program} {o : Outcome Program} {s f : State}

/-- A run without a limit is one with any limit that is large enough. -/
lemma exists_limit_of_reaches (h : Reaches (step none) s f) :
    ∃ depth, ∀ l, depth ≤ l → Reaches (step (some l)) s f := by
  induction h using ReflTransGen.head_induction_on with
  | refl => exact ⟨0, fun _ _ => .refl⟩
  | @head s s' hstep _ ih =>
    obtain ⟨depth, ih⟩ := ih
    refine ⟨max depth (s.depth + 1), fun l hl => .head ?_ (ih l ((Nat.le_max_left _ _).trans hl))⟩
    have hlt : s.depth < l := (Nat.le_max_right _ _).trans hl
    rwa [step_eq_of_quiet (Nat.le_of_lt hlt) ?_]
    rintro ahead ⟨⟩
    exact Nat.lt_irrefl _ hlt

/-- What is read without a limit is read with any limit that is large enough. -/
theorem exists_depth_of_ends (h : Ends none ts o) :
    ∃ depth, ∀ l, depth ≤ l → program l ts = o := by
  obtain ⟨depth, hd⟩ := exists_limit_of_reaches (ends_iff.mp h)
  exact ⟨depth, fun l hl => (ends_program l ts).unique (ends_iff.mpr (hd l hl))⟩

/-- What is read without a limit is what is read at a depth as large as its nesting. -/
lemma program_of_ends (h : Ends none ts (.ok p rest)) {l : Nat} (hl : p.nesting ≤ l) :
    program l ts = .ok p rest := by
  obtain ⟨depth, hd⟩ := exists_depth_of_ends h
  exact program_of_nesting_le (hd depth (Nat.le_refl depth)) hl

/-- The nesting of a program is the deepest level that is opened when it is read. -/
theorem opens_iff_lt_nesting (h : Ends none ts (.ok p rest)) (l : Nat) :
    (∃ ahead, OpensAt ts (l + 1) ahead) ↔ l < p.nesting := by
  obtain ⟨hend, hno⟩ | ⟨ahead, hfirst, hfail⟩ := ends_or_cut_off l ts
  · have hle := nesting_le_of_program (hend.unique h)
    exact ⟨fun ⟨ahead, ho⟩ => absurd ho (hno ahead), fun hlt => absurd hlt (Nat.not_lt.mpr hle)⟩
  · refine ⟨fun _ => Nat.lt_of_not_le fun hle => ?_, fun _ => ⟨ahead, hfirst.1⟩⟩
    rw [program_of_ends h hle] at hfail
    cases hfail

/-- No construct starts at the end of the tokens, unless reading fails there. -/
lemma ends_error_of_opens_nil {level : Nat} (h : OpensAt ts level []) :
    ∃ problem rest, Ends none ts (.error problem rest) := by
  obtain ⟨s, hs, ho⟩ := h
  obtain ⟨problem, rest, hfail⟩ :
      ∃ problem rest, (Scripted.inside .expression).script [] = .error problem rest := by
    obtain h | ⟨_, _, h, -⟩ := Scripted.starts_ladder 0 []
    · exact h
    · cases h
  have hcounted := (counted_start none ts).reaches hs
  refine ⟨problem, rest, ends_iff.mpr (hs.trans ?_)⟩
  cases ho with
  | call n _ next stack depth =>
    obtain rfl : depth = stack.size := hcounted.size
    have hexpression : ∀ {layer : Layer} (stack : Stack layer) next,
        Reaches (step none) ⟨layer, .call .expression [] next, stack, stack.size⟩
          (final (.error problem rest)) := by
      intro layer stack next
      refine .head rfl ?_
      rw [hfail]
      exact reaches_error none problem rest (.push .expression next stack)
    cases n with
    | expression => exact hexpression stack next
    | statement => exact .head rfl (hexpression (.push .statement next stack) _)

/-- The limit cuts off exactly what is nested too deeply. The counter counts the active statements
and expressions and never exceeds the limit. What is read without a limit is read with it, unless a
construct starts one level too deep: then the first of these in the source is reported. -/
theorem nesting_limit_cuts_off (ts : List Token) (text : String) :
    (∀ s, Reaches (step (some maxNesting)) (start ts) s →
      s.depth = s.stack.size ∧ s.depth ≤ maxNesting) ∧
    Ends (some maxNesting) ts (program maxNesting ts) ∧
    (∃ o, Ends none ts o) ∧
    (∀ p rest, Ends none ts (.ok p rest) →
      (p.NestedWithin maxNesting →
        readTokens (program maxNesting) text ts = .ok (p, rest)) ∧
      (¬p.NestedWithin maxNesting → ∃ t r, FirstAt ts (maxNesting + 1) (t :: r) ∧
        readTokens (program maxNesting) text ts =
          .error (.reported ⟨.syntactic, "nesting too deep", t.offset, t.length, text⟩))) ∧
    (∀ problem rest, Ends none ts (.error problem rest) →
      ((∀ ahead, ¬OpensAt ts (maxNesting + 1) ahead) →
        readTokens (program maxNesting) text ts = .error (failureOf text ts rest problem)) ∧
      ((∃ ahead, OpensAt ts (maxNesting + 1) ahead) →
        ∃ ahead, FirstAt ts (maxNesting + 1) ahead ∧ readTokens (program maxNesting) text ts =
          .error (failureOf text ts ahead (.syntactic .nestingTooDeep)))) := by
  refine ⟨fun s hs => ?_, ends_program maxNesting ts, exists_ends ts, fun p rest h => ⟨?_, ?_⟩,
    fun problem rest h => ⟨?_, ?_⟩⟩
  · have hcounted := (counted_start (some maxNesting) ts).reaches hs
    exact ⟨hcounted.size, hcounted.bound maxNesting rfl⟩
  · intro hp
    exact readTokens_ok.mpr (program_of_ends h (Program.nestedWithin_iff.mp hp))
  · intro hp
    have hlt : maxNesting < p.nesting :=
      Nat.lt_of_not_le fun hle => hp (Program.nestedWithin_iff.mpr hle)
    obtain ⟨-, hno⟩ | ⟨ahead, hfirst, hfail⟩ := ends_or_cut_off maxNesting ts
    · obtain ⟨ahead, ho⟩ := (opens_iff_lt_nesting h maxNesting).mpr hlt
      exact absurd ho (hno ahead)
    · cases ahead with
      | nil =>
        obtain ⟨_, _, hend⟩ := ends_error_of_opens_nil hfirst.1
        cases h.unique hend
      | cons t r =>
        refine ⟨t, r, hfirst, ?_⟩
        simp only [readTokens, hfail]
        rfl
  · intro hno
    obtain ⟨hend, -⟩ | ⟨ahead, hfirst, -⟩ := ends_or_cut_off maxNesting ts
    · simp only [readTokens, hend.unique h]
    · exact absurd hfirst.1 (hno ahead)
  · rintro ⟨ahead, ho⟩
    obtain ⟨-, hno⟩ | ⟨first, hfirst, hfail⟩ := ends_or_cut_off maxNesting ts
    · exact absurd ho (hno ahead)
    · exact ⟨first, hfirst, by simp only [readTokens, hfail]⟩

/-- The tokens of a field whose value is a constant inside some groups. -/
def groupedField (n : Nat) : List Token :=
  [⟨.identifier, "LET", 0⟩, ⟨.identifier, "a", 4⟩, ⟨.operator, "=", 6⟩] ++
    (List.range n).map (fun i => ⟨.operator, "(", 8 + i⟩) ++ [⟨.integer, "1", 8 + n⟩] ++
    (List.range n).map (fun i => ⟨.operator, ")", 9 + n + i⟩) ++ [⟨.operator, ";", 9 + 2 * n⟩]

theorem constant_in_sixty_four_groups_cut_off :
    ∃ t r, FirstAt (groupedField 64) 65 (t :: r) ∧
      readTokens (program maxNesting) "" (groupedField 64) =
        .error (.reported ⟨.syntactic, "nesting too deep", t.offset, t.length, ""⟩) := by
  have hdeep : (readTokens (program 65) "" (groupedField 64)).toOption.map (·.1.nesting) =
      some 65 := by decide +kernel
  cases hread : readTokens (program 65) "" (groupedField 64) with
  | error failure =>
    rw [hread] at hdeep
    cases hdeep
  | ok read =>
    obtain ⟨p, rest⟩ := read
    rw [hread] at hdeep
    have hnesting : p.nesting = 65 := Option.some.inj hdeep
    have hp : program 65 (groupedField 64) = .ok p rest := readTokens_ok.mp hread
    have hend : Ends none (groupedField 64) (.ok p rest) := by
      obtain ⟨hend, -⟩ | ⟨ahead, -, hfail⟩ := ends_or_cut_off 65 (groupedField 64)
      · rwa [hp] at hend
      · rw [hp] at hfail
        cases hfail
    refine ((nesting_limit_cuts_off (groupedField 64) "").2.2.2.1 p rest hend).2 ?_
    rw [Program.nestedWithin_iff, hnesting]
    decide

end Descent

end FrontEnd
