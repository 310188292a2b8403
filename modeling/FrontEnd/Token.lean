/-!
# Tokens

A token is a kind, the exact source text and the offset at which that text starts. Offsets count
characters. They may be any integers, because tokens can also be made by hand. Source text that
cannot be cut into tokens has a lexical problem.
-/

namespace FrontEnd

/-- The kinds of tokens. Keywords are identifiers, and punctuation consists of operators. -/
inductive TokenKind where
  | identifier
  | integer
  | decimal
  | character
  | string
  | operator
deriving DecidableEq

/-- A token with its text as written, quotes and escapes included. -/
structure Token where
  kind : TokenKind
  text : String
  offset : Int
deriving DecidableEq

namespace Token

def length (t : Token) : Nat := t.text.length

/-- The offset just past a token. -/
def stop (t : Token) : Int := t.offset + t.length

end Token

/-- Why the text at some place is no token. -/
inductive LexicalProblem where
  | nameStart
  | fractionDigit
  | signedZero
  | noNumber
  | openingQuote
  | unterminatedCharacter
  | emptyCharacter
  | newlineInCharacter
  | overlongCharacter
  | unterminatedString
  | unfinishedEscape
  | unknownEscape (letter : Char)
  | noOperator
deriving DecidableEq

def LexicalProblem.message : LexicalProblem → String
  | nameStart => "identifier must start with a letter or '_'"
  | fractionDigit => "expected digit after decimal point"
  | signedZero => "zero cannot be signed"
  | noNumber => "invalid number"
  | openingQuote => "expected opening quote"
  | unterminatedCharacter => "unterminated character literal"
  | emptyCharacter => "empty character literal"
  | newlineInCharacter => "newline in character literal"
  | overlongCharacter => "character literal must contain exactly one character"
  | unterminatedString => "unterminated string literal"
  | unfinishedEscape => "unexpected end of input in escape sequence"
  | unknownEscape letter => "invalid escape sequence '\\" ++ String.singleton letter ++ "'"
  | noOperator => "expected operator"

/-- A lexical problem and the offset of the first character that cannot go on. -/
structure LexicalError where
  problem : LexicalProblem
  offset : Nat
deriving DecidableEq

end FrontEnd
