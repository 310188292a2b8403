import FrontEnd.Character
import FrontEnd.Token
import FrontEnd.Number
import FrontEnd.Syntax
import FrontEnd.Grammar.Problem

/-!
# Constants

The literal that a single token denotes. Three keywords are constants whatever kind of token they
are; the others are told by the kind.
-/

namespace FrontEnd

/-- Replaces escapes by the characters they stand for. A backslash that starts no known escape
stands for itself, and so does the character after it. -/
def unescape : List Char → List Char
  | [] => []
  | [c] => [c]
  | c :: d :: r =>
    if c = '\\' then
      match escape? d with
      | some e => e :: unescape r
      | none => c :: d :: unescape r
    else c :: unescape (d :: r)

/-- A text without its first and its last character. -/
def unquote (text : String) : List Char := (text.toList.drop 1).dropLast

/-- The text that a character or string literal denotes. -/
def literalText (text : String) : String := String.ofList (unescape (unquote text))

/-- The constant that a token denotes, if it is one. Numerals can be unreadable. -/
def constant? (t : Token) : Option (Except NumeralKind Literal) :=
  if t.text = "NIL" then some (.ok .nil)
  else if t.text = "TRUE" then some (.ok (.boolean true))
  else if t.text = "FALSE" then some (.ok (.boolean false))
  else
    match t.kind with
    | .integer =>
      match readInteger? t.text with
      | some n => some (.ok (.integer n))
      | none => some (.error .integer)
    | .decimal =>
      match Decimal.read? t.text with
      | some d => some (.ok (.decimal d))
      | none => some (.error .decimal)
    | .character => some (.ok (.character (literalText t.text)))
    | .string => some (.ok (.string (literalText t.text)))
    | .identifier | .operator => none

end FrontEnd
