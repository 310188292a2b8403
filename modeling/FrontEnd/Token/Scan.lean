import FrontEnd.Character
import FrontEnd.Token

/-!
# Scanners

A scanner reads one token, or part of one, off the front of a text. It sees nothing but that
text, it says how much of it was taken, also when it fails, and what it took followed by what it
left is the text it was given.
-/

namespace FrontEnd

/-- The characters that a scanner took, those it left, and what it made of them. -/
structure Scan (α : Type) where
  taken : List Char
  rest : List Char
  outcome : Except LexicalProblem α

namespace Scan

variable {α : Type}

def done (taken rest : List Char) (value : α) : Scan α := ⟨taken, rest, .ok value⟩

/-- Failure after some characters, in front of the rest. -/
def failed (taken rest : List Char) (problem : LexicalProblem) : Scan α :=
  ⟨taken, rest, .error problem⟩

/-- A scan that began after some characters already taken. -/
def after (cs : List Char) (s : Scan α) : Scan α := ⟨cs ++ s.taken, s.rest, s.outcome⟩

/-- The text that was given to the scanner. -/
def input (s : Scan α) : List Char := s.taken ++ s.rest

/-- A name: a letter or underscore, then word characters and hyphens. -/
def identifier (cs : List Char) : Scan TokenKind :=
  match cs with
  | [] => failed [] [] .nameStart
  | c :: r =>
    if isIdentifierStart c then
      done (c :: r.takeWhile isIdentifierChar) (r.dropWhile isIdentifierChar) .identifier
    else failed [] cs .nameStart

/-- A number that starts with a zero: only a fraction can follow, and without one there can be
no sign. -/
def zero (signed : Bool) (r : List Char) : Scan TokenKind :=
  match r with
  | '.' :: f =>
    if f.head?.any isDigit then
      done ('0' :: '.' :: f.takeWhile isDigit) (f.dropWhile isDigit) .decimal
    else failed ['0', '.'] f .fractionDigit
  | _ => if signed then failed ['0'] r .signedZero else done ['0'] r .integer

/-- A number that starts with another digit. A point belongs to it only in front of a digit. -/
def positive (cs : List Char) : Scan TokenKind :=
  let whole := cs.takeWhile isDigit
  match cs.dropWhile isDigit with
  | '.' :: f =>
    if f.head?.any isDigit then
      done (whole ++ '.' :: f.takeWhile isDigit) (f.dropWhile isDigit) .decimal
    else done whole ('.' :: f) .integer
  | r => done whole r .integer

/-- A number after its sign, if it has one. -/
def unsigned (signed : Bool) (cs : List Char) : Scan TokenKind :=
  match cs with
  | [] => failed [] [] .noNumber
  | c :: r =>
    if c = '0' then zero signed r
    else if isDigit c then positive cs
    else failed [] cs .noNumber

/-- A number, or a sign without a digit after it, which is an operator. -/
def number (cs : List Char) : Scan TokenKind :=
  match cs with
  | [] => unsigned false []
  | c :: r =>
    if isSign c then
      if r.head?.any isDigit then (unsigned true r).after [c] else done [c] r .operator
    else unsigned false cs

/-- The letter of an escape, after its backslash. -/
def escape (cs : List Char) : Scan Unit :=
  match cs with
  | [] => failed [] [] .unfinishedEscape
  | c :: r => if isEscapeLetter c then done [c] r () else failed [] cs (.unknownEscape c)

/-- The closing quote of a character literal. -/
def closingQuote (cs : List Char) : Scan TokenKind :=
  match cs with
  | [] => failed [] [] .unterminatedCharacter
  | c :: r => if c = '\'' then done [c] r .character else failed [] cs .overlongCharacter

/-- A character literal after its opening quote. -/
def characterBody (cs : List Char) : Scan TokenKind :=
  match cs with
  | [] => failed [] [] .unterminatedCharacter
  | c :: r =>
    if c = '\'' then failed [] cs .emptyCharacter
    else if c = '\n' then failed [] cs .newlineInCharacter
    else if c = '\\' then
      let e := escape r
      match e.outcome with
      | .ok () => (closingQuote e.rest).after (c :: e.taken)
      | .error problem => failed (c :: e.taken) e.rest problem
    else (closingQuote r).after [c]

def character (cs : List Char) : Scan TokenKind :=
  match cs with
  | [] => failed [] [] .openingQuote
  | c :: r => if c = '\'' then (characterBody r).after [c] else failed [] cs .openingQuote

/-- A string literal after its opening quote. -/
def stringBody : List Char → Scan TokenKind
  | [] => failed [] [] .unterminatedString
  | c :: r =>
    if c = '"' then done [c] r .string
    else if c = '\n' then failed [] (c :: r) .unterminatedString
    else if c = '\\' then
      match r with
      | [] => failed [c] [] .unfinishedEscape
      | e :: r' =>
        if isEscapeLetter e then (stringBody r').after [c, e]
        else failed [c] (e :: r') (.unknownEscape e)
    else (stringBody r).after [c]

def string (cs : List Char) : Scan TokenKind :=
  match cs with
  | [] => failed [] [] .openingQuote
  | c :: r => if c = '"' then (stringBody r).after [c] else failed [] cs .openingQuote

/-- The operators of two characters. -/
def isDoubleOperator (a b : Char) : Bool :=
  (a == '&' && b == '&') || (a == '|' && b == '|') || (a == '!' && b == '=') ||
    (a == '=' && b == '=') || (a == '<' && b == '=') || (a == '>' && b == '=')

/-- An operator of one character, which may be any that is no spacing. -/
def singleOperator (cs : List Char) : Scan TokenKind :=
  match cs with
  | [] => failed [] [] .noOperator
  | c :: r => if isSpace c then failed [] cs .noOperator else done [c] r .operator

/-- An operator, of two characters where possible. -/
def operator (cs : List Char) : Scan TokenKind :=
  match cs with
  | a :: b :: r =>
    if isDoubleOperator a b then done [a, b] r .operator else singleOperator cs
  | _ => singleOperator cs

/-- The token that starts with the first character, which alone decides its scanner. -/
def token (cs : List Char) : Scan TokenKind :=
  match cs with
  | [] => operator []
  | c :: _ =>
    if isIdentifierStart c then identifier cs
    else if isDigit c || isSign c then number cs
    else if c = '\'' then character cs
    else if c = '"' then string cs
    else operator cs

end Scan

end FrontEnd
