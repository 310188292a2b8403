import FrontEnd.Proofs.Nesting.Rules

/-!
# Depth of outcomes

A rule gives a construct at every depth at which it gives it at all and which is large enough for
the construct. What it gives depends on nothing but the kinds and texts of the tokens.
-/

namespace FrontEnd

open Script

variable {α : Type} {s : Script α} {v : α → Nat} {start depth depth' bound : Nat} {a : α}
  {ts rest : List Token}

lemma rule_zero (n : Nest) (ts : List Token) :
    n.rule 0 ts = .error (.syntactic .nestingTooDeep) ts := by
  cases n <;> rfl

lemma rule_succ (n : Nest) (depth : Nat) (ts : List Token) :
    n.rule (depth + 1) ts = ((Scripted.inside n).script ts).play depth :=
  ((Scripted.inside n).plays depth ts).symm

lemma program_eq (depth : Nat) (ts : List Token) :
    Grammar.program depth ts = (Scripted.program.script ts).play depth :=
  (Scripted.program.plays depth ts).symm

theorem blind_rule (depth : Nat) (n : Nest) : (n.rule depth).Blind := by
  induction depth generalizing n with
  | zero =>
    intro ts us h
    rw [rule_zero, rule_zero]
    exact .error _ h
  | succ depth ih =>
    intro ts us h
    rw [rule_succ, rule_succ]
    exact ((Scripted.inside n).alike h).play ih

/-- What the parser gives does not depend on the places of tokens. -/
theorem blind_program (depth : Nat) : (Grammar.program depth).Blind := by
  intro ts us h
  rw [program_eq, program_eq]
  exact (Scripted.program.alike h).play (blind_rule depth)

/-- A value weighs no more than the constructs inside if these weigh no more than some bound. -/
lemma Script.Weighs.le (h : s.Weighs v start)
    (hinside : ∀ {n : Nest} {ts b rest}, n.rule depth ts = .ok b rest → n.nesting b ≤ bound)
    (hstart : start ≤ bound) (ho : s.play depth = .ok a rest) : v a ≤ bound := by
  induction s generalizing start with
  | ok b left =>
    cases ho
    exact (show v a = start from h) ▸ hstart
  | error problem left => cases ho
  | call n ahead next ih =>
    simp only [play] at ho
    split at ho
    · next b middle hb => exact ih b middle (h b middle) (Nat.max_le.mpr ⟨hstart, hinside hb⟩) ho
    · cases ho

theorem nesting_le {n : Nest} {t : n.Tree} (h : n.rule depth ts = .ok t rest) :
    n.nesting t ≤ depth := by
  induction depth generalizing n ts rest with
  | zero =>
    rw [rule_zero] at h
    cases h
  | succ depth ih =>
    rw [rule_succ] at h
    exact Nat.succ_le_succ (((Scripted.inside n).weighs ts).le (fun hb => ih hb) (Nat.zero_le _) h)

/-- The parser gives no program that is nested too deeply. -/
theorem nesting_le_of_program {p : Program} (h : Grammar.program depth ts = .ok p rest) :
    p.nesting ≤ depth := by
  rw [program_eq] at h
  exact (Scripted.program.weighs ts).le (fun hb => nesting_le hb) (Nat.zero_le _) h

/-- A script gives a value at another depth if the constructs inside it are given there. -/
lemma Script.Weighs.play_eq (h : s.Weighs v start) (ho : s.play depth = .ok a rest)
    (hinside : ∀ {n : Nest} {ts b rest}, n.rule depth ts = .ok b rest → n.nesting b ≤ v a →
      n.rule depth' ts = .ok b rest) : s.play depth' = .ok a rest := by
  induction s generalizing start with
  | ok b left => exact ho
  | error problem left => cases ho
  | call n ahead next ih =>
    simp only [play] at ho ⊢
    split at ho
    · next b middle hb =>
      have hle : n.nesting b ≤ v a :=
        (Nat.le_max_right _ _).trans (Weighs.start_le (h b middle) ho)
      rw [hinside hb hle]
      exact ih b middle (h b middle) ho
    · cases ho

theorem rule_of_nesting_le {n : Nest} {t : n.Tree} (h : n.rule depth ts = .ok t rest)
    (hle : n.nesting t ≤ depth') : n.rule depth' ts = .ok t rest := by
  induction depth' generalizing n ts rest depth with
  | zero => exact absurd hle (Nat.not_succ_le_zero _)
  | succ depth' ih =>
    cases depth with
    | zero =>
      rw [rule_zero] at h
      cases h
    | succ depth =>
      rw [rule_succ] at h ⊢
      exact ((Scripted.inside n).weighs ts).play_eq h fun hb hb' =>
        ih hb (hb'.trans (Nat.le_of_succ_le_succ hle))

/-- A program that the parser gives at some depth it gives at every depth that is large enough. -/
theorem program_of_nesting_le {p : Program} (h : Grammar.program depth ts = .ok p rest)
    (hle : p.nesting ≤ depth') : Grammar.program depth' ts = .ok p rest := by
  rw [program_eq] at h ⊢
  exact (Scripted.program.weighs ts).play_eq h fun hb hb' => rule_of_nesting_le hb (hb'.trans hle)

/-- A failure of a script is one of its own, or one of a construct inside. -/
lemma Script.Within.fails {problem : Problem} (h : s.Within ts)
    (hinside : ∀ {n : Nest} {ts problem rest}, n.rule depth ts = .error problem rest →
      Fails ts problem rest)
    (hleaves : ∀ n : Nest, Rule.Leaves (n.rule depth)) (ho : s.play depth = .error problem rest) :
    Fails ts problem rest := by
  induction s generalizing ts with
  | ok b left => cases ho
  | error problem left =>
    cases ho
    exact h
  | call n ahead next ih =>
    simp only [play] at ho
    split at ho
    · next b middle hb =>
      have hmiddle := Rule.leaves_ok (hleaves n) hb
      exact (ih b middle (h.2 b middle) ho).mono (hmiddle.trans h.1)
    · next hb =>
      cases ho
      exact (hinside hb).mono h.1

lemma leaves_rule (depth : Nat) (n : Nest) : Rule.Leaves (n.rule depth) := by
  cases n with
  | expression => exact Grammar.leaves_expression depth
  | statement => exact Grammar.leaves_statement depth

theorem fails_rule {n : Nest} {problem : Problem} (h : n.rule depth ts = .error problem rest) :
    Fails ts problem rest := by
  induction depth generalizing n ts problem rest with
  | zero =>
    rw [rule_zero] at h
    cases h
    exact List.suffix_refl ts
  | succ depth ih =>
    rw [rule_succ] at h
    exact ((Scripted.inside n).within ts).fails ih (leaves_rule depth) h

/-- The parser fails in front of some of the tokens, or behind a numeral that cannot be read. -/
theorem fails_program {problem : Problem} (h : Grammar.program depth ts = .error problem rest) :
    Fails ts problem rest := by
  rw [program_eq] at h
  exact (Scripted.program.within ts).fails fails_rule (leaves_rule depth) h

end FrontEnd
