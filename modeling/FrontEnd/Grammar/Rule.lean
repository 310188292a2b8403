import FrontEnd.Token
import FrontEnd.Grammar.Problem

/-!
# Grammar rules

A rule reads a construct off the front of the tokens ahead. It leaves the tokens that it did not
read, also when it fails: what a failing rule has read stays read, and the problem lies in front
of the first token left.
-/

namespace FrontEnd

/-- A rule for constructs of type `α`. -/
abbrev Rule (α : Type) := EStateM Problem (List Token) α

/-- What a token can be asked for: its exact text, whatever its kind, or its kind. -/
inductive Pattern where
  | text (s : String)
  | kind (k : TokenKind)
deriving DecidableEq

/-- Whether a token is as asked for. -/
def Pattern.accepts (p : Pattern) (t : Token) : Bool :=
  match p with
  | text s => t.text == s
  | kind k => t.kind == k

/-- Whether the first tokens are as asked for, one by one. -/
def startsAs : List Pattern → List Token → Bool
  | [], _ => true
  | _ :: _, [] => false
  | p :: ps, t :: ts => p.accepts t && startsAs ps ts

namespace Rule

variable {α : Type}

/-- Fails in front of the next token. -/
def fail (cause : SyntaxCause) : Rule α := fun ts => .error (.syntactic cause) ts

def ahead (ps : List Pattern) : Rule Bool := fun ts => .ok (startsAs ps ts) ts

/-- Reads the next tokens if all of them are as asked for, and none otherwise. -/
def accept (ps : List Pattern) : Rule Bool := fun ts =>
  if startsAs ps ts then .ok true (ts.drop ps.length) else .ok false ts

def atEnd : Rule Bool := fun ts => .ok ts.isEmpty ts

/-- Whether the next token has one of some texts. -/
def aheadOneOf (texts : List String) : Rule Bool := fun ts =>
  .ok (ts.head?.any fun t => texts.contains t.text) ts

/-- Reads a token that has to be as asked for. -/
def expect (p : Pattern) (cause : SyntaxCause) : Rule Token := fun ts =>
  match ts with
  | [] => .error (.syntactic cause) []
  | t :: r => if p.accepts t then .ok t r else .error (.syntactic cause) (t :: r)

def name (cause : SyntaxCause) : Rule String := do
  let t ← expect (.kind .identifier) cause
  return t.text

/-- Reads a construct behind the token that announces it, if that token is next. -/
def behind (p : Pattern) (r : Rule α) : Rule (Option α) := do
  if ← accept [p] then
    let a ← r
    return some a
  else
    return none

/-- Takes up to as many rounds as there are tokens in a list, and one more. -/
def roundsOver (step : α → Rule (Option α)) : List Token → α → Rule α
  | [], a => do
    match ← step a with
    | none => return a
    | some b => return b
  | _ :: ts, a => do
    match ← step a with
    | none => return a
    | some b => roundsOver step ts b

/-- Repeats a step until it has nothing to add. Each round that adds something reads a token, so
the tokens ahead bound the number of rounds. -/
def repeatedly (step : α → Rule (Option α)) (a : α) : Rule α := fun ts => roundsOver step ts a ts

/-- Reads items until there is none. -/
def many (item : Rule (Option α)) : Rule (List α) := do
  let reversed ← repeatedly (fun read => do
    match ← item with
    | none => return none
    | some a => return some (a :: read)) []
  return reversed.reverse

end Rule

end FrontEnd
