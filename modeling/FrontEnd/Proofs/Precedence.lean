import FrontEnd.Proofs.Prefix.Expression

/-!
# Precedence of operators

Operands with operators between them are read as one expression. Its tree is told without the rules:
it splits the operators at the last one of the weakest level that occurs, and so do its parts. The
rules, which fold the levels one inside the other, come to the same tree.
-/

namespace FrontEnd

open Grammar Rule

/-- Operators, each with the operand behind it. -/
abbrev OperatorRun := List (Operator × Expression)

namespace OperatorRun

/-- The level of the weakest operators, or the one above all operators. -/
def weakest : OperatorRun → Nat
  | [] => 4
  | p :: run => min p.1.level (weakest run)

/-- The part in front of the last operator of a level, that operator with its operand, and the part
behind it. -/
def splitLast? (level : Nat) :
    OperatorRun → Option (OperatorRun × (Operator × Expression) × OperatorRun)
  | [] => none
  | p :: run =>
    match splitLast? level run with
    | some (left, q, right) => some (p :: left, q, right)
    | none => if p.1.level = level then some ([], p, run) else none

lemma splitLast?_none {level : Nat} {run : OperatorRun} (h : splitLast? level run = none) :
    ∀ p ∈ run, p.1.level ≠ level := by
  induction run with
  | nil => simp
  | cons p run ih =>
    rw [splitLast?] at h
    split at h
    · cases h
    · next hrun =>
      split at h
      · cases h
      · next hp => simpa [hp] using ih hrun

lemma splitLast?_some {level : Nat} {run left right : OperatorRun} {q : Operator × Expression}
    (h : splitLast? level run = some (left, q, right)) :
    run = left ++ q :: right ∧ q.1.level = level ∧ ∀ p ∈ right, p.1.level ≠ level := by
  induction run generalizing left with
  | nil => cases h
  | cons p run ih =>
    rw [splitLast?] at h
    split at h
    · next left' q' right' hrun =>
      cases h
      obtain ⟨rfl, hq, hright⟩ := ih hrun
      exact ⟨rfl, hq, hright⟩
    · next hrun =>
      split at h
      · next hp =>
        cases h
        exact ⟨rfl, hp, splitLast?_none hrun⟩
      · cases h

/-- The tree of an operand and a run of operators behind it. -/
def tree (first : Expression) (run : OperatorRun) : Expression :=
  match _h : splitLast? (weakest run) run with
  | none => first
  | some (left, (o, second), right) => .binary o (tree first left) (tree second right)
termination_by run.length
decreasing_by
  all_goals
    have hrun := congrArg List.length (splitLast?_some _h).1
    simp only [List.length_append, List.length_cons] at hrun
    omega

lemma weakest_le {run : OperatorRun} : ∀ p ∈ run, run.weakest ≤ p.1.level := by
  induction run with
  | nil => simp
  | cons p run ih =>
    intro q hq
    rcases List.mem_cons.mp hq with rfl | hq
    · exact Nat.min_le_left _ _
    · exact (Nat.min_le_right _ _).trans (ih q hq)

lemma exists_weakest {run : OperatorRun} (h : run ≠ []) :
    ∃ p ∈ run, p.1.level = weakest run := by
  induction run with
  | nil => exact absurd rfl h
  | cons p run ih =>
    by_cases hle : p.1.level ≤ weakest run
    · exact ⟨p, List.mem_cons_self .., (Nat.min_eq_left hle).symm⟩
    · have hne : run ≠ [] := by
        rintro rfl
        exact hle (Nat.le_of_lt p.1.level_lt)
      obtain ⟨q, hq, hlevel⟩ := ih hne
      exact ⟨q, List.mem_cons_of_mem p hq, hlevel.trans (Nat.min_eq_right (by omega)).symm⟩

lemma tree_nil (first : Expression) : tree first [] = first := by
  rw [tree]
  rfl

/-- A tree is split at an operator that is weaker than all behind it and at most as strong as those
in front. -/
lemma exists_split {run : OperatorRun} (h : run ≠ []) :
    ∃ left o second right, run = left ++ (o, second) :: right ∧
      (∀ p ∈ left, o.level ≤ p.1.level) ∧ (∀ p ∈ right, o.level < p.1.level) ∧
      ∀ first, tree first run = .binary o (tree first left) (tree second right) := by
  cases hsplit : splitLast? (weakest run) run with
  | none =>
    obtain ⟨p, hp, hlevel⟩ := exists_weakest h
    exact absurd hlevel (splitLast?_none hsplit p hp)
  | some parts =>
    obtain ⟨left, ⟨o, second⟩, right⟩ := parts
    obtain ⟨hrun, ho, hright⟩ := splitLast?_some hsplit
    have ho : o.level = weakest run := ho
    refine ⟨left, o, second, right, hrun, fun p hp => ?_, fun p hp => ?_, fun first => ?_⟩
    · rw [ho]
      exact weakest_le p (by simp [hrun, hp])
    · have hle := weakest_le p (show p ∈ run by simp [hrun, hp])
      have hne := hright p hp
      omega
    · rw [tree]
      split
      · next hnone =>
        rw [hsplit] at hnone
        cases hnone
      · next hsome =>
        rw [hsplit] at hsome
        cases hsome
        rfl

end OperatorRun

def Expression.IsBinary : Expression → Prop
  | binary _ _ _ => True
  | _ => False

/-- Tokens that are read as an expression that is no binary operation. -/
structure Operand (depth : Nat) where
  tokens : List Token
  value : Expression
  reads : Grammar.expression depth tokens = .ok value []
  single : ¬value.IsBinary

/-- A token that is written as an operator. -/
structure OperatorSign where
  token : Token
  operator : Operator
  written : token.text = operator.symbol

section Levels

variable {e : Rule Expression}

/-- Where a level goes on, it makes a binary operation. -/
lemma isBinary_of_more {k : Nat} (hk : k < 4) {a b : Expression} {ts rest : List Token}
    (h : more e k a ts = .ok (some b) rest) : b.IsBinary := by
  rw [more_of_lt hk] at h
  obtain ⟨o, middle, -, h⟩ := bind_ok.mp h
  cases o with
  | none => cases h
  | some o =>
    obtain ⟨right, middle, -, h⟩ := bind_ok.mp h
    cases h
    trivial

/-- Where a level does not go on, it reads nothing. -/
lemma eq_of_more_none {k : Nat} (hk : k < 4) {a : Expression} {ts rest : List Token}
    (h : more e k a ts = .ok none rest) : ts = rest := by
  rw [more_of_lt hk] at h
  obtain ⟨o, middle, ho, h⟩ := bind_ok.mp h
  cases o with
  | none =>
    cases h
    obtain ⟨p, t, hp, -⟩ | ⟨-, hts, -⟩ := operatorOf_ok.mp ho
    · cases hp
    · exact hts
  | some o =>
    obtain ⟨right, middle, -, h⟩ := bind_ok.mp h
    cases h

/-- What is no binary operation is read by the next deeper level. -/
lemma rung_succ_of_not_isBinary (hl : Leaves e) {k : Nat} (hk : k < 4) {a : Expression}
    {ts rest : List Token} (h : rung e k ts = .ok a rest) (ha : ¬a.IsBinary) :
    rung e (k + 1) ts = .ok a rest := by
  rw [rung_of_lt hk] at h
  obtain ⟨b, middle, hb, h⟩ := bind_ok.mp h
  rw [repeatedly_apply (finds_more hl k)] at h
  split at h
  · next hnone =>
    cases h
    rw [hb, eq_of_more_none hk hnone]
  · next c middle' hsome =>
    exact absurd (repeatedly_keeps (finds_more hl k) (fun _ _ _ _ _ => isBinary_of_more hk)
      (isBinary_of_more hk hsome) h) ha
  · cases h

end Levels

namespace Operand

variable {depth : Nat}

/-- An operand is read in the same way in front of an operator. -/
lemma linked_append (x : Operand (depth + 1)) {U : List Token} (hU : Stops 4 U) :
    linked (Grammar.expression depth) (x.tokens ++ U) = .ok x.value U := by
  have hl := leaves_expression depth
  have h0 : rung (Grammar.expression depth) 0 x.tokens = .ok x.value [] := x.reads
  have h1 := rung_succ_of_not_isBinary hl (by omega) h0 x.single
  have h2 := rung_succ_of_not_isBinary hl (by omega) h1 x.single
  have h3 := rung_succ_of_not_isBinary hl (by omega) h2 x.single
  have h4 := rung_succ_of_not_isBinary hl (by omega) h3 x.single
  have hread : linked (Grammar.expression depth) (x.tokens ++ []) = .ok x.value [] := by
    rw [List.append_nil]
    exact h4
  exact (lookahead_linked (lookahead_expression (Nat.le_refl depth)) hl).ok hread
    (Alike.refl x.tokens) (.inr hU)

lemma readsClosed (x : Operand (depth + 1)) :
    ReadsClosed (Grammar.expression depth) 4 x.tokens x.value := fun _ hU => x.linked_append hU

/-- The tokens of operators, each with the operand behind it. -/
def runTokens (run : List (OperatorSign × Operand depth)) : List Token :=
  run.flatMap fun p => p.1.token :: p.2.tokens

/-- The operators and operands that tokens are read as. -/
def runValues (run : List (OperatorSign × Operand depth)) : OperatorRun :=
  run.map fun p => (p.1.operator, p.2.value)

/-- The operator at which the tree of operands and operators is split. -/
lemma exists_split {run : List (OperatorSign × Operand depth)} (h : run ≠ []) :
    ∃ l sign x r, run = l ++ (sign, x) :: r ∧
      (∀ p ∈ l, sign.operator.level ≤ p.1.operator.level) ∧
      (∀ p ∈ r, sign.operator.level < p.1.operator.level) ∧
      ∀ first, OperatorRun.tree first (runValues run) = .binary sign.operator
        (OperatorRun.tree first (runValues l)) (OperatorRun.tree x.value (runValues r)) := by
  obtain ⟨left, o, second, right, hsplit, hleft, hright, htree⟩ :=
    OperatorRun.exists_split (show runValues run ≠ [] by simpa [runValues] using h)
  obtain ⟨l, m, rfl, rfl, hm⟩ := List.map_eq_append_iff.mp hsplit
  obtain ⟨⟨sign, x⟩, r, rfl, hx, rfl⟩ := List.map_eq_cons_iff.mp hm
  cases hx
  exact ⟨l, sign, x, r, rfl, fun p hp => hleft _ (List.mem_map_of_mem hp),
    fun p hp => hright _ (List.mem_map_of_mem hp), htree⟩

/-- A level reads operands with operators between them that are as strong as itself. -/
lemma readsOpen_run (run : List (OperatorSign × Operand (depth + 1))) {k : Nat} (hk : k < 4)
    (hrun : ∀ p ∈ run, k ≤ p.1.operator.level) (first : Operand (depth + 1)) :
    ReadsOpen (Grammar.expression depth) k (first.tokens ++ runTokens run)
      (OperatorRun.tree first.value (runValues run)) := by
  have hl := leaves_expression depth
  -- By the number of operators, split as the tree is.
  induction hn : run.length using Nat.strong_induction_on generalizing run k first with
  | _ n ih =>
    by_cases hne : run = []
    · subst hne
      have hopen := first.readsClosed.open_below (k := 3) (by omega)
      simpa [runTokens, runValues, OperatorRun.tree_nil] using
        hopen.lower hl (show k ≤ 3 by omega) (by omega)
    obtain ⟨l, sign, x, r, rfl, hleft, hright, htree⟩ := exists_split hne
    have hlength : l.length < n ∧ r.length < n := by
      simp only [List.length_append, List.length_cons] at hn
      omega
    have hlevel := sign.operator.level_lt
    have hopen := ih l.length hlength.1 l hlevel hleft first rfl
    have hclosed : ReadsClosed (Grammar.expression depth) (sign.operator.level + 1)
        (x.tokens ++ runTokens r) (OperatorRun.tree x.value (runValues r)) := by
      by_cases hstrong : sign.operator.level + 1 < 4
      · exact (ih r.length hlength.2 r hstrong hright x rfl).closed hl (by omega)
      -- No operator is stronger than those of the last level.
      · have hnone : r = [] := by
          refine List.eq_nil_iff_forall_not_mem.mpr fun p hp => ?_
          have := hright p hp
          have := p.1.operator.level_lt
          omega
        have hlast : sign.operator.level + 1 = 4 := by omega
        simpa [hnone, hlast, runTokens, runValues, OperatorRun.tree_nil] using x.readsClosed
    have htokens : first.tokens ++ runTokens (l ++ (sign, x) :: r) =
        first.tokens ++ runTokens l ++ sign.token :: (x.tokens ++ runTokens r) := by
      simp [runTokens]
    have hweaker := hrun (sign, x) (by simp)
    rw [htree, htokens]
    exact (hopen.binary hl sign.written hclosed).lower hl hweaker (Nat.le_of_lt hlevel)

/-- What is read as an expression needs some depth. -/
lemma depth_ne_zero (x : Operand depth) : depth ≠ 0 := by
  rintro rfl
  cases x.reads

end Operand

/-- Operands with operators between them are read as one expression. Its tree splits the operators
at the last of the weakest of them, and so on inside. -/
theorem operators_follow_precedence {depth : Nat} (first : Operand depth)
    (run : List (OperatorSign × Operand depth)) :
    Grammar.expression depth (first.tokens ++ Operand.runTokens run) =
      .ok (OperatorRun.tree first.value (Operand.runValues run)) [] := by
  obtain ⟨d, rfl⟩ := Nat.exists_eq_succ_of_ne_zero first.depth_ne_zero
  have hopen := Operand.readsOpen_run run (k := 0) (by omega) (fun _ _ => Nat.zero_le _) first
  have hread := hopen.closed (leaves_expression d) (by omega) [] (by simp [Stops])
  rwa [List.append_nil] at hread

theorem differences_nest_on_the_left :
    Grammar.expression maxNesting [word "a", mark "-", word "b", mark "*", word "c", mark "-",
      word "d"] = .ok (.binary .subtract (.binary .subtract (.name "a")
        (.binary .multiply (.name "b") (.name "c"))) (.name "d")) [] := by
  let operand (s : String) (h : Grammar.expression maxNesting [word s] = .ok (.name s) []) :
    Operand maxNesting := ⟨[word s], .name s, h, id⟩
  have h := operators_follow_precedence (operand "a" rfl)
    [(⟨mark "-", .subtract, rfl⟩, operand "b" rfl), (⟨mark "*", .multiply, rfl⟩, operand "c" rfl),
      (⟨mark "-", .subtract, rfl⟩, operand "d" rfl)]
  simpa [Operand.runTokens, Operand.runValues, operand, OperatorRun.tree, OperatorRun.weakest,
    OperatorRun.splitLast?, Operator.level] using h

end FrontEnd
