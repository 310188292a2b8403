import FrontEnd.Report
import FrontEnd.Token.Stream
import FrontEnd.Grammar.Program

/-!
# Reading a source

A source is cut into tokens as a whole before any of them is read, so a lexical problem anywhere
comes before every other.
-/

namespace FrontEnd

/-- Why a source cannot be read. Unsupported numerals are not reported at a place. -/
inductive Failure where
  | reported (report : Report)
  | numeral (kind : NumeralKind)
deriving DecidableEq

/-- The report of a lexical error: it marks one character. -/
def LexicalError.report (e : LexicalError) (source : String) : Report :=
  ⟨.lexical, e.problem.message, e.offset, 1, source⟩

/-- The tokens of a source, or a report. -/
def tokensOf (source : String) : Except Failure (List Token) :=
  match tokenize source with
  | .ok tokens => .ok tokens
  | .error e => .error (.reported (e.report source))

/-- The offset and length of a problem in front of the tokens left: those of the next token, or
the place just past the last one of all. -/
def placeOf (tokens rest : List Token) : Int × Int :=
  match rest with
  | t :: _ => (t.offset, t.length)
  | [] =>
    match tokens.getLast? with
    | some t => (t.stop, 1)
    | none => (0, 1)

/-- The failure that a problem amounts to. -/
def failureOf (source : String) (tokens rest : List Token) (problem : Problem) : Failure :=
  match problem with
  | .numeral kind => .numeral kind
  | .syntactic cause =>
    let (offset, length) := placeOf tokens rest
    .reported ⟨.syntactic, cause.message, offset, length, source⟩

/-- Applies a rule to tokens; gives the value with the tokens left. The source is for reports. -/
def readTokens {α : Type} (rule : Rule α) (source : String) (tokens : List Token) :
    Except Failure (α × List Token) :=
  match rule tokens with
  | .ok value rest => .ok (value, rest)
  | .error problem rest => .error (failureOf source tokens rest problem)

/-- Applies a rule to the tokens of a source. Text after the construct only has to consist of
tokens. -/
def readSource {α : Type} (rule : Rule α) (source : String) : Except Failure α := do
  let tokens ← tokensOf source
  let (value, _) ← readTokens rule source tokens
  return value

/-- The construct of some kind that a source starts with. -/
def parseAs (goal : Grammar.Goal) (source : String) : Except Failure Construct :=
  readSource (Grammar.construct Grammar.maxNesting goal) source

/-- The program that a source is. -/
def parse (source : String) : Except Failure Program :=
  readSource (Grammar.program Grammar.maxNesting) source

end FrontEnd
