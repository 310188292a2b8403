import FrontEnd.Session.Parsing
import FrontEnd.Proofs.Nesting.Depth

/-!
# Calls that count the depth

The parser with a counter of the levels it is in, which a call finds as the one before has left it.
The counter is raised where an expression or a statement starts and lowered where it ends, also by a
failure. Calls that count give what calls do that are told how many levels are left, and leave the
counter as they find it.
-/

namespace FrontEnd

namespace Script

/-- The script of a rule that wraps its value. -/
def map {α β : Type} (g : α → β) (s : Script α) : Script β := s.bind fun a rest => .ok (g a) rest

lemma play_map {α β : Type} (g : α → β) {s : Script α} {depth : Nat} {r : Rule α}
    {ts : List Token} (h : s.play depth = r ts) : (s.map g).play depth = (g <$> r) ts := by
  rw [map, play_bind, h, Rule.map_apply]
  cases r ts <;> rfl

lemma Within.map {α β : Type} (g : α → β) {s : Script α} {ts : List Token} (h : s.Within ts) :
    (s.map g).Within ts :=
  h.bind fun _ rest => List.suffix_refl rest

/-- Running a script that finds the counter at some depth and leaves it at another. A construct
inside is refused if the counter has reached the limit. Otherwise the counter is raised for it and
lowered again behind it, whether it is read or fails. -/
inductive Counts (limit : Nat) : {α : Type} → Script α → Nat → Outcome α → Nat → Prop
  | ok {α : Type} (a : α) (rest : List Token) (depth : Nat) :
      Counts limit (.ok a rest) depth (.ok a rest) depth
  | error {α : Type} (problem : Problem) (rest : List Token) (depth : Nat) :
      Counts limit (α := α) (.error problem rest) depth (.error problem rest) depth
  | refused {α : Type} {n : Nest} {ahead : List Token} {next : n.Tree → List Token → Script α}
      {depth : Nat} (h : limit ≤ depth) :
      Counts limit (.call n ahead next) depth (.error (.syntactic .nestingTooDeep) ahead) depth
  | returned {α : Type} {n : Nest} {ahead rest : List Token}
      {next : n.Tree → List Token → Script α} {depth inner after : Nat} {b : n.Tree}
      {o : Outcome α} (h : depth < limit)
      (hinside : Counts limit ((Scripted.inside n).script ahead) (depth + 1) (.ok b rest) inner)
      (hnext : Counts limit (next b rest) (inner - 1) o after) :
      Counts limit (.call n ahead next) depth o after
  | failed {α : Type} {n : Nest} {ahead rest : List Token}
      {next : n.Tree → List Token → Script α} {depth inner : Nat} {problem : Problem}
      (h : depth < limit)
      (hinside : Counts limit ((Scripted.inside n).script ahead) (depth + 1) (.error problem rest)
        inner) :
      Counts limit (.call n ahead next) depth (.error problem rest) (inner - 1)

section Counting

variable {α : Type} {limit depth levels after : Nat} {s : Script α} {o : Outcome α}

/-- What is counted is played with the levels left. The counter is lowered as often as raised. -/
lemma Counts.play (h : Counts limit s depth o after) (hlevels : depth + levels = limit) :
    o = s.play levels ∧ after = depth := by
  induction h generalizing levels with
  | ok a rest depth => exact ⟨rfl, rfl⟩
  | error problem rest depth => exact ⟨rfl, rfl⟩
  | @refused _ n ahead next depth h =>
    obtain rfl : levels = 0 := by omega
    exact ⟨by rw [Script.play, rule_zero], rfl⟩
  | @returned _ n ahead rest next depth inner after b o h _ _ ihinside ihnext =>
    obtain ⟨levels, rfl⟩ : ∃ l, levels = l + 1 := ⟨levels - 1, by omega⟩
    obtain ⟨hb, rfl⟩ := ihinside (show depth + 1 + levels = limit by omega)
    have hrule : n.rule (levels + 1) ahead = .ok b rest := (rule_succ n levels ahead).trans hb.symm
    obtain ⟨ho, rfl⟩ := ihnext hlevels
    exact ⟨by rw [Script.play, hrule, ho], rfl⟩
  | @failed _ n ahead rest next depth inner problem h _ ihinside =>
    obtain ⟨levels, rfl⟩ : ∃ l, levels = l + 1 := ⟨levels - 1, by omega⟩
    obtain ⟨hb, rfl⟩ := ihinside (show depth + 1 + levels = limit by omega)
    have hrule : n.rule (levels + 1) ahead = .error problem rest :=
      (rule_succ n levels ahead).trans hb.symm
    exact ⟨by rw [Script.play, hrule], rfl⟩

/-- What is played with the levels left can be counted. -/
lemma counts_play (hlevels : depth + levels = limit) (s : Script α) :
    Counts limit s depth (s.play levels) depth := by
  -- The induction on the levels is for the constructs inside, the one on the script for what is
  -- read behind them.
  induction levels generalizing depth α with
  | zero =>
    cases s with
    | ok a rest => exact .ok a rest depth
    | error problem rest => exact .error problem rest depth
    | call n ahead next =>
      rw [Script.play, rule_zero]
      exact .refused (by omega)
  | succ levels ihlevels =>
    induction s with
    | ok a rest => exact .ok a rest depth
    | error problem rest => exact .error problem rest depth
    | call n ahead next ih =>
      have hinside := ihlevels (show depth + 1 + levels = limit by omega)
        ((Scripted.inside n).script ahead)
      rw [Script.play, rule_succ]
      cases ho : ((Scripted.inside n).script ahead).play levels with
      | ok b rest =>
        rw [ho] at hinside
        exact .returned (by omega) hinside (ih b rest)
      | error problem rest =>
        rw [ho] at hinside
        exact .failed (by omega) hinside

/-- A script that is run with the counter at nothing is played with all levels, and the counter is
at nothing again. -/
theorem counts_iff : Counts limit s 0 o after ↔ o = s.play limit ∧ after = 0 := by
  constructor
  · exact fun h => h.play (Nat.zero_add limit)
  · rintro ⟨rfl, rfl⟩
    exact counts_play (Nat.zero_add limit) s

end Counting

end Script

namespace Parsing

open Grammar

/-- The script of the rule for a kind of construct. -/
def goalScript : Goal → List Token → Script Construct
  | .program, ts => (Scripted.program.script ts).map .program
  | .field, ts => (((Scripted.field 0).script ts)).map .field
  | .method, ts => ((Scripted.method 0).script ts).map .method
  | .statement, ts => ((Scripted.call .statement 0).script ts).map .statement
  | .expression, ts => ((Scripted.call .expression 0).script ts).map .expression

/-- The script of the rule behind a call. -/
def Call.script : Call → List Token → Script Answer
  | read goal, ts => (goalScript goal ts).map .construct
  | peek ps, ts => .ended ((peek ps).rule ts)
  | accept ps, ts => .ended ((accept ps).rule ts)

lemma play_goalScript (goal : Goal) (depth : Nat) (ts : List Token) :
    (goalScript goal ts).play depth = construct depth goal ts := by
  cases goal with
  | program => exact Script.play_map _ (Scripted.program.plays depth ts)
  | field => exact Script.play_map _ ((Scripted.field 0).plays depth ts)
  | method => exact Script.play_map _ ((Scripted.method 0).plays depth ts)
  | statement => exact Script.play_map _ ((Scripted.call .statement 0).plays depth ts)
  | expression => exact Script.play_map _ ((Scripted.call .expression 0).plays depth ts)

lemma play_script (k : Call) (ts : List Token) : (k.script ts).play maxNesting = k.rule ts := by
  cases k with
  | read goal => exact Script.play_map _ (play_goalScript goal maxNesting ts)
  | peek ps => exact Script.play_ended maxNesting ((Call.peek ps).rule ts)
  | accept ps => exact Script.play_ended maxNesting ((Call.accept ps).rule ts)

lemma within_goalScript (goal : Goal) (ts : List Token) : (goalScript goal ts).Within ts := by
  cases goal with
  | program => exact (Scripted.program.within ts).map _
  | field => exact ((Scripted.field 0).within ts).map _
  | method => exact ((Scripted.method 0).within ts).map _
  | statement => exact ((Scripted.call .statement 0).within ts).map _
  | expression => exact ((Scripted.call .expression 0).within ts).map _

/-- The outcome of a call with the cursor on which it was made. -/
def Outcome.of (source : String) (c : TokenCursor) : FrontEnd.Outcome Answer → Outcome
  | .ok answer rest => ⟨.ok answer, c.leaving rest⟩
  | .error problem rest => ⟨.error (failureOf source c.tokens rest problem), c.leaving rest⟩

lemma call_eq (source : String) (c : TokenCursor) (k : Call) :
    call source c k = .of source c (k.rule c.rest) := by
  rw [call, apply]
  cases k.rule c.rest <;> rfl

/-- Calls one after the other that count the depth, each on the cursor and with the counter that the
one before left. -/
inductive CountedRun (source : String) : TokenCursor → Nat → List Call → List Outcome → Nat → Prop
  | nil (c : TokenCursor) (depth : Nat) : CountedRun source c depth [] [] depth
  | cons {c : TokenCursor} {depth middle after : Nat} {k : Call} {ks : List Call}
      {o : FrontEnd.Outcome Answer} {os : List Outcome}
      (h : (k.script c.rest).Counts maxNesting depth o middle)
      (hs : CountedRun source (Outcome.of source c o).cursor middle ks os after) :
      CountedRun source c depth (k :: ks) (.of source c o :: os) after

/-- The counter makes no difference to calls in a row, and is at nothing after each of them. -/
theorem countedRun_iff {source : String} {c : TokenCursor} {ks : List Call} {os : List Outcome}
    {depth : Nat} : CountedRun source c 0 ks os depth ↔ os = run source c ks ∧ depth = 0 := by
  induction ks generalizing c os with
  | nil =>
    constructor
    · rintro ⟨⟩
      exact ⟨rfl, rfl⟩
    · rintro ⟨rfl, rfl⟩
      exact .nil c 0
  | cons k ks ih =>
    constructor
    · rintro (_ | ⟨h, hs⟩)
      obtain ⟨rfl, rfl⟩ := Script.counts_iff.mp h
      obtain ⟨rfl, rfl⟩ := ih.mp hs
      rw [play_script, ← call_eq]
      exact ⟨rfl, rfl⟩
    · rintro ⟨rfl, rfl⟩
      have h : (k.script c.rest).Counts maxNesting 0 (k.rule c.rest) 0 :=
        Script.counts_iff.mpr ⟨(play_script k c.rest).symm, rfl⟩
      rw [run, call_eq]
      exact .cons h (ih.mpr ⟨rfl, rfl⟩)

end Parsing

end FrontEnd
