import FrontEnd.Session.Cursor
import FrontEnd.Reading

/-!
# Parsing step by step

Single rules can be called in any order on one cursor. What a failing call has read stays read.
-/

namespace FrontEnd.Parsing

/-- The calls on a cursor. -/
inductive Call where
  | read (goal : Grammar.Goal)
  | peek (patterns : List Pattern)
  | accept (patterns : List Pattern)
deriving DecidableEq

/-- What a call gives. -/
inductive Answer where
  | construct (value : Construct)
  | truth (b : Bool)

/-- The outcome of a call and the cursor after it. -/
structure Outcome where
  answer : Except Failure Answer
  cursor : TokenCursor

/-- Applies a rule. The source is for reports. -/
def apply (rule : Rule Answer) (source : String) (c : TokenCursor) : Outcome :=
  match rule c.rest with
  | .ok answer rest => ⟨.ok answer, c.leaving rest⟩
  | .error problem rest => ⟨.error (failureOf source c.tokens rest problem), c.leaving rest⟩

/-- The rule behind a call. -/
def Call.rule : Call → Rule Answer
  | read goal => Answer.construct <$> Grammar.construct Grammar.maxNesting goal
  | peek ps => Answer.truth <$> Rule.ahead ps
  | accept ps => Answer.truth <$> Rule.accept ps

def call (source : String) (c : TokenCursor) (k : Call) : Outcome := apply k.rule source c

/-- Calls one after the other, each on the cursor that the one before left. -/
def run (source : String) (c : TokenCursor) : List Call → List Outcome
  | [] => []
  | k :: ks =>
    let outcome := call source c k
    outcome :: run source outcome.cursor ks

end FrontEnd.Parsing
