import FrontEnd.Session.Cursor
import FrontEnd.Token.Stream

/-!
# Lexing step by step

Single scanners can be called in any order on one cursor. What a failing call has read stays
pending and becomes part of the next token, or is discarded with the next run of blanks.
-/

namespace FrontEnd.Lexing

/-- What the next character can be asked for: to be one of some characters, to be in a class, or to
pass any other test. -/
inductive CharacterPattern where
  | oneOf (characters : String)
  | inClass (k : CharacterClass)
  | satisfying (test : Char → Bool)

/-- Whether a character is as asked for. -/
def CharacterPattern.accepts (p : CharacterPattern) (c : Char) : Bool :=
  match p with
  | oneOf characters => characters.toList.contains c
  | inClass k => k.has c
  | satisfying test => test c

/-- Whether the first characters are as asked for, one by one. -/
def textStartsAs : List CharacterPattern → List Char → Bool
  | [], _ => true
  | _ :: _, [] => false
  | p :: ps, c :: cs => p.accepts c && textStartsAs ps cs

/-- The calls on a cursor. -/
inductive Call where
  | all
  | token
  | identifier
  | number
  | character
  | string
  | operator
  | escape
  | peek (patterns : List CharacterPattern)
  | accept (patterns : List CharacterPattern)

/-- What a call gives. -/
inductive Answer where
  | tokens (ts : List Token)
  | token (t : Token)
  | nothing
  | truth (b : Bool)
deriving DecidableEq

/-- The outcome of a call: its answer, the pieces made on the way, also by a call that fails, and
the cursor after it. -/
structure Outcome where
  answer : Except LexicalError Answer
  pieces : List Piece
  cursor : TextCursor

/-- Runs a scanner that makes a token. -/
def scan (scanner : List Char → Scan TokenKind) (c : TextCursor) : Outcome :=
  let s := scanner c.rest
  let moved := c.advance s.taken.length
  match s.outcome with
  | .ok kind =>
    let (t, after) := moved.emit kind
    ⟨.ok (.token t), [.token t], after⟩
  | .error problem => ⟨.error ⟨problem, moved.index⟩, [], moved⟩

/-- Runs the scanner of escapes, which makes no token. -/
def scanEscape (c : TextCursor) : Outcome :=
  let s := Scan.escape c.rest
  let moved := c.advance s.taken.length
  match s.outcome with
  | .ok () => ⟨.ok .nothing, [], moved⟩
  | .error problem => ⟨.error ⟨problem, moved.index⟩, [], moved⟩

/-- Cuts all the text ahead. -/
def scanAll (c : TextCursor) : Outcome :=
  let r := cut c.pendingStart c.pending c.rest
  let moved := { c with index := r.offset, length := r.pending.length }
  match r.problem with
  | none => ⟨.ok (.tokens r.tokens), r.pieces, moved⟩
  | some problem => ⟨.error ⟨problem, moved.index⟩, r.pieces, moved⟩

def call (c : TextCursor) : Call → Outcome
  | .all => scanAll c
  | .token => scan Scan.token c
  | .identifier => scan Scan.identifier c
  | .number => scan Scan.number c
  | .character => scan Scan.character c
  | .string => scan Scan.string c
  | .operator => scan Scan.operator c
  | .escape => scanEscape c
  | .peek ps => ⟨.ok (.truth (textStartsAs ps c.rest)), [], c⟩
  | .accept ps =>
    let found := textStartsAs ps c.rest
    ⟨.ok (.truth found), [], if found then c.advance ps.length else c⟩

/-- Calls one after the other, each on the cursor that the one before left. -/
def run (c : TextCursor) : List Call → List Outcome
  | [] => []
  | k :: ks =>
    let outcome := call c k
    outcome :: run outcome.cursor ks

end FrontEnd.Lexing
