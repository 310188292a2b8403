import FrontEnd.Proofs.Nesting.Depth
import Mathlib.Computability.StateTransition

/-!
# Descent step by step

The parser as a machine that counts how deep it is. A step starts the next construct inside, goes
back to what is around one, or hands a failure on. The counter is raised when a construct starts and
lowered when it ends, also by a failure, and a construct that would raise it above a limit fails
where it stands. A machine without a limit never fails in this way.
-/

namespace FrontEnd.Descent

open Script Relation StateTransition

/-- What can be active: the program, or a construct inside. -/
inductive Layer where
  | program
  | inside (n : Nest)

def Layer.Tree : Layer → Type
  | program => Program
  | inside n => n.Tree

/-- What waits for the active layer: how each construct around it goes on. -/
inductive Stack : Layer → Type
  | bottom : Stack .program
  | push {layer : Layer} (n : Nest) (next : n.Tree → List Token → Script layer.Tree)
      (below : Stack layer) : Stack (.inside n)

/-- The number of active expressions and statements. -/
def Stack.size : {layer : Layer} → Stack layer → Nat
  | _, bottom => 0
  | _, push _ _ below => below.size + 1

/-- The script of the active layer, what waits for it, and the counter. -/
structure State where
  layer : Layer
  script : Script layer.Tree
  stack : Stack layer
  depth : Nat

/-- The next state, unless the run has ended. -/
def step (limit : Option Nat) : State → Option State
  | ⟨_, .call n ahead next, stack, depth⟩ =>
    if limit.any (· ≤ depth) then some ⟨_, .error (.syntactic .nestingTooDeep) ahead, stack, depth⟩
    else some ⟨.inside n, (Scripted.inside n).script ahead, .push n next stack, depth + 1⟩
  | ⟨_, .ok a rest, .push _ next below, depth⟩ => some ⟨_, next a rest, below, depth - 1⟩
  | ⟨_, .error problem rest, .push _ _ below, depth⟩ =>
    some ⟨_, .error problem rest, below, depth - 1⟩
  | ⟨_, .ok _ _, .bottom, _⟩ => none
  | ⟨_, .error _ _, .bottom, _⟩ => none

/-- The state in which a program is read from some tokens. -/
def start (ts : List Token) : State := ⟨.program, Scripted.program.script ts, .bottom, 0⟩

/-- The state in which a run has ended. -/
def final (o : Outcome Program) : State := ⟨.program, ended o, .bottom, 0⟩

/-- That reading some tokens ends with an outcome. -/
def Ends (limit : Option Nat) (ts : List Token) (o : Outcome Program) : Prop :=
  final o ∈ eval (step limit) (start ts)

variable {limit : Option Nat} {s s' f f' : State} {layer : Layer}

/-- What a step can do. -/
inductive Change (limit : Option Nat) : State → State → Prop
  | refused {layer : Layer} {n : Nest} {ahead : List Token}
      {next : n.Tree → List Token → Script layer.Tree} {stack : Stack layer} {depth : Nat}
      (h : ∃ l ∈ limit, l ≤ depth) :
      Change limit ⟨layer, .call n ahead next, stack, depth⟩
        ⟨layer, .error (.syntactic .nestingTooDeep) ahead, stack, depth⟩
  | opened {layer : Layer} {n : Nest} {ahead : List Token}
      {next : n.Tree → List Token → Script layer.Tree} {stack : Stack layer} {depth : Nat}
      (h : ∀ l ∈ limit, depth < l) :
      Change limit ⟨layer, .call n ahead next, stack, depth⟩
        ⟨.inside n, (Scripted.inside n).script ahead, .push n next stack, depth + 1⟩
  | closed {layer : Layer} {n : Nest} {a : n.Tree} {rest : List Token}
      {next : n.Tree → List Token → Script layer.Tree} {below : Stack layer} {depth : Nat} :
      Change limit ⟨.inside n, .ok a rest, .push n next below, depth⟩
        ⟨layer, next a rest, below, depth - 1⟩
  | failed {layer : Layer} {n : Nest} {problem : Problem} {rest : List Token}
      {next : n.Tree → List Token → Script layer.Tree} {below : Stack layer} {depth : Nat} :
      Change limit ⟨.inside n, .error problem rest, .push n next below, depth⟩
        ⟨layer, .error problem rest, below, depth - 1⟩

lemma step_cases (h : step limit s = some s') : Change limit s s' := by
  obtain ⟨layer, script, stack, depth⟩ := s
  cases script with
  | call n ahead next =>
    simp only [step] at h
    split at h
    · next hlimit =>
      cases h
      exact .refused (by simpa [Option.any_eq_true] using hlimit)
    · next hlimit =>
      cases h
      refine .opened fun l hl => ?_
      obtain rfl := Option.mem_def.mp hl
      simpa using hlimit
  | ok a rest =>
    cases stack with
    | bottom => cases h
    | push n next below =>
      cases h
      exact .closed
  | error problem rest =>
    cases stack with
    | bottom => cases h
    | push n next below =>
      cases h
      exact .failed

/-- The counter counts what is active, and the limit bounds it. -/
structure Counted (limit : Option Nat) (s : State) : Prop where
  size : s.depth = s.stack.size
  bound : ∀ l ∈ limit, s.depth ≤ l

lemma counted_start (limit : Option Nat) (ts : List Token) : Counted limit (start ts) :=
  ⟨rfl, fun l _ => Nat.zero_le l⟩

lemma Counted.next (h : Counted limit s) (hs : step limit s = some s') : Counted limit s' := by
  obtain ⟨hsize, hbound⟩ := h
  cases step_cases hs with
  | refused => exact ⟨hsize, hbound⟩
  | opened hlimit => exact ⟨congrArg Nat.succ hsize, hlimit⟩
  | closed | failed =>
    exact ⟨congrArg Nat.pred hsize, fun l hl => (Nat.sub_le _ _).trans (hbound l hl)⟩

lemma Counted.reaches (h : Counted limit s) (hs : Reaches (step limit) s s') :
    Counted limit s' := by
  induction hs with
  | refl => exact h
  | tail _ hstep ih => exact ih.next hstep

/-- A layer comes to the outcome of its script, played at the number of levels left. -/
lemma reaches_ended {l k depth : Nat} (hk : depth + k = l) (script : Script layer.Tree)
    (stack : Stack layer) :
    Reaches (step (some l)) ⟨layer, script, stack, depth⟩
      ⟨layer, ended (script.play k), stack, depth⟩ := by
  induction k generalizing layer depth with
  | zero =>
    cases script with
    | ok a rest => exact .refl
    | error problem rest => exact .refl
    | call n ahead next =>
      refine .single ?_
      have hlimit : l ≤ depth := by omega
      simp only [play, rule_zero]
      simp [step, hlimit, ended]
  | succ k ihk =>
    induction script with
    | ok a rest => exact .refl
    | error problem rest => exact .refl
    | call n ahead next ih =>
      have hlimit : ¬l ≤ depth := by omega
      have hcall : step (some l) ⟨layer, .call n ahead next, stack, depth⟩ =
          some ⟨.inside n, (Scripted.inside n).script ahead, .push n next stack, depth + 1⟩ := by
        simp [step, hlimit]
      have hinside : Reaches (step (some l))
          ⟨.inside n, (Scripted.inside n).script ahead, .push n next stack, depth + 1⟩
          ⟨.inside n, ended (n.rule (k + 1) ahead), .push n next stack, depth + 1⟩ := by
        rw [rule_succ]
        exact ihk (by omega) _ _
      simp only [play]
      cases ho : n.rule (k + 1) ahead with
      | ok b rest =>
        rw [ho] at hinside
        exact .head hcall (hinside.trans (.head rfl (ih b rest)))
      | error problem rest =>
        rw [ho] at hinside
        exact .head hcall (hinside.trans (.single rfl))

/-- A failure ends the run. -/
lemma reaches_error (limit : Option Nat) (problem : Problem) (rest : List Token)
    (stack : Stack layer) :
    Reaches (step limit) ⟨layer, .error problem rest, stack, stack.size⟩
      (final (.error problem rest)) := by
  induction stack with
  | bottom => exact .refl
  | push n next below ih => exact .head rfl ih

lemma step_final (limit : Option Nat) (o : Outcome Program) : step limit (final o) = none := by
  cases o <;> rfl

lemma final_injective {o o' : Outcome Program} (h : final o = final o') : o = o' := by
  injection h with _ h _ _
  exact ended_injective h

lemma final_unique {o o' : Outcome Program} (h : Reaches (step limit) s (final o))
    (h' : Reaches (step limit) s (final o')) : o = o' :=
  final_injective (Part.mem_unique (mem_eval.mpr ⟨h, step_final limit o⟩)
    (mem_eval.mpr ⟨h', step_final limit o'⟩))

lemma ends_iff {ts : List Token} {o : Outcome Program} :
    Ends limit ts o ↔ Reaches (step limit) (start ts) (final o) := by
  rw [Ends, mem_eval, and_iff_left (step_final limit o)]

lemma Ends.unique {ts : List Token} {o o' : Outcome Program} (h : Ends limit ts o)
    (h' : Ends limit ts o') : o = o' :=
  final_unique (ends_iff.mp h) (ends_iff.mp h')

/-- The machine with a limit computes what the parser gives at that depth. -/
theorem ends_program (l : Nat) (ts : List Token) :
    Ends (some l) ts (Grammar.program l ts) := by
  rw [ends_iff, program_eq]
  exact reaches_ended (Nat.zero_add l) _ _

end FrontEnd.Descent
