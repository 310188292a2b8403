import FrontEnd.Token

/-!
# Cursors

A cursor is an index into a text or into a list of tokens that can look at places relative to it.
Looking before the first item counts back from the end.
-/

namespace FrontEnd

/-- The item at a place, where negative places count back from the end. -/
def itemAt? {α : Type} (items : List α) (place : Int) : Option α :=
  if 0 ≤ place then items[place.toNat]?
  else if 0 ≤ items.length + place then items[(items.length + place).toNat]?
  else none

/-- An index into a text with the length of the pending run that ends there. -/
structure TextCursor where
  source : List Char
  index : Nat
  length : Nat

namespace TextCursor

def start (source : String) : TextCursor := ⟨source.toList, 0, 0⟩

/-- Whether a relative place lies before the end. It may lie before the start. -/
def has (c : TextCursor) (offset : Int) : Bool := c.index + offset < c.source.length

def get? (c : TextCursor) (offset : Int) : Option Char := itemAt? c.source (c.index + offset)

/-- Moves over some characters, which become pending. The end is no obstacle. -/
def advance (c : TextCursor) (n : Nat) : TextCursor :=
  { c with index := c.index + n, length := c.length + n }

def skip (c : TextCursor) : TextCursor := { c with length := 0 }

/-- The offset of the pending run. -/
def pendingStart (c : TextCursor) : Nat := c.index - c.length

/-- The pending run, as far as it lies inside the text. -/
def pending (c : TextCursor) : List Char := (c.source.take c.index).drop c.pendingStart

def rest (c : TextCursor) : List Char := c.source.drop c.index

/-- Makes the pending run a token. -/
def emit (c : TextCursor) (kind : TokenKind) : Token × TextCursor :=
  (⟨kind, String.ofList c.pending, c.pendingStart⟩, c.skip)

end TextCursor

/-- An index into a list of tokens. -/
structure TokenCursor where
  tokens : List Token
  index : Nat

namespace TokenCursor

def start (tokens : List Token) : TokenCursor := ⟨tokens, 0⟩

def has (c : TokenCursor) (offset : Int) : Bool :=
  0 ≤ c.index + offset && c.index + offset < c.tokens.length

def get? (c : TokenCursor) (offset : Int) : Option Token := itemAt? c.tokens (c.index + offset)

/-- Moves over one token. The end is no obstacle. -/
def advance (c : TokenCursor) : TokenCursor := { c with index := c.index + 1 }

def rest (c : TokenCursor) : List Token := c.tokens.drop c.index

/-- Moves to where some tokens are left. -/
def leaving (c : TokenCursor) (rest : List Token) : TokenCursor :=
  { c with index := c.tokens.length - rest.length }

end TokenCursor

end FrontEnd
