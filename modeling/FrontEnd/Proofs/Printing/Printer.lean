import FrontEnd.Proofs.Syntax.Nesting
import FrontEnd.Proofs.Grammar.Derivation

/-!
# Printing programs

A program is printed as tokens with one space between each two: its fields, then its methods.
Printable are the trees that tokens can have: names are no keywords, an operator binds its operands
as the levels say, and constants are such as source text denotes.
-/

namespace FrontEnd

/-- An integer in decimal digits, with a sign if it is negative. -/
def integerText (n : Int) : List Char :=
  (if n < 0 then ['-'] else []) ++ Nat.toDigits 10 n.natAbs

/-- A finite decimal in plain notation, with as many digits behind the point as its exponent
tells. -/
def plainText (d : Decimal) : List Char :=
  (if d.negative then ['-'] else []) ++
    match d.magnitude with
    | .finite coefficient exponent =>
      Magnitude.pointed (Nat.toDigits 10 coefficient) (-exponent).toNat
    | other => other.text

/-- A character inside a literal, behind a backslash if it would end the literal or the line. -/
def escaped (quote c : Char) : List Char :=
  if c = '\\' then ['\\', '\\']
  else if c = quote then ['\\', quote]
  else if c = '\n' then ['\\', 'n']
  else [c]

def quoted (quote : Char) (cs : List Char) : List Char :=
  quote :: (cs.map (escaped quote)).flatten ++ [quote]

def Literal.token : Literal → Token
  | nil => word "NIL"
  | boolean true => word "TRUE"
  | boolean false => word "FALSE"
  | integer n => ⟨.integer, String.ofList (integerText n), 0⟩
  | decimal d => ⟨.decimal, String.ofList (plainText d), 0⟩
  | character s => ⟨.character, String.ofList (quoted '\'' s.toList), 0⟩
  | string s => ⟨.string, String.ofList (quoted '"' s.toList), 0⟩

namespace Expression

mutual

@[simp] def tokens : Expression → List Token
  | literal v => [v.token]
  | group e => mark "(" :: (tokens e ++ [mark ")"])
  | name s => [word s]
  | member r s => tokens r ++ [mark ".", word s]
  | call s es => word s :: mark "(" :: (argumentTokens es ++ [mark ")"])
  | methodCall r s es =>
    tokens r ++ mark "." :: word s :: mark "(" :: (argumentTokens es ++ [mark ")"])
  | binary o l r => tokens l ++ mark o.symbol :: tokens r

@[simp] def argumentTokens : List Expression → List Token
  | [] => []
  | e :: es => tokens e ++ moreArgumentTokens es

@[simp] def moreArgumentTokens : List Expression → List Token
  | [] => []
  | e :: es => mark "," :: (tokens e ++ moreArgumentTokens es)

end

end Expression

def initializerTokens : Option Expression → List Token
  | none => []
  | some e => mark "=" :: e.tokens

def bindingTokens : Option Binding → List Token
  | none => []
  | some b => word b.name :: mark "=" :: b.value.tokens

namespace Statement

mutual

@[simp] def tokens : Statement → List Token
  | expression e => e.tokens ++ [mark ";"]
  | declaration s v => word "LET" :: word s :: (initializerTokens v ++ [mark ";"])
  | assignment e v => e.tokens ++ mark "=" :: (v.tokens ++ [mark ";"])
  | branch c yes no =>
    word "IF" :: (c.tokens ++ word "DO" :: (blockTokens yes ++ (elseTokens no ++ [word "END"])))
  | forLoop i c j ss =>
    word "FOR" :: mark "(" :: (bindingTokens i ++ mark ";" :: (c.tokens ++ mark ";" ::
      (bindingTokens j ++ mark ")" :: (blockTokens ss ++ [word "END"]))))
  | whileLoop c ss => word "WHILE" :: (c.tokens ++ word "DO" :: (blockTokens ss ++ [word "END"]))
  | exit none => [word "RETURN", mark ";"]
  | exit (some e) => word "RETURN" :: (e.tokens ++ [mark ";"])

@[simp] def blockTokens : List Statement → List Token
  | [] => []
  | s :: ss => tokens s ++ blockTokens ss

/-- The second part of a conditional, unless it is empty. -/
@[simp] def elseTokens : List Statement → List Token
  | [] => []
  | s :: ss => word "ELSE" :: (tokens s ++ blockTokens ss)

end

end Statement

@[simp] def Field.tokens (f : Field) : List Token :=
  word "LET" :: ((if f.constant then [word "CONST"] else []) ++
    word f.name :: (initializerTokens f.value ++ [mark ";"]))

def moreNameTokens : List String → List Token
  | [] => []
  | s :: ss => mark "," :: word s :: moreNameTokens ss

def nameTokens : List String → List Token
  | [] => []
  | s :: ss => word s :: moreNameTokens ss

@[simp] def Method.tokens (m : Method) : List Token :=
  word "DEF" :: word m.name :: mark "(" :: (nameTokens m.parameters ++
    mark ")" :: word "DO" :: (Statement.blockTokens m.body ++ [word "END"]))

namespace Program

def tokens (p : Program) : List Token :=
  (p.fields.map Field.tokens).flatten ++ (p.methods.map Method.tokens).flatten

/-- The source that a program is printed as. -/
def print (p : Program) : String := spaced p.tokens

end Program

/-- A name of the lexer that is no keyword. -/
def IsPlainName (s : String) : Prop := TokenKind.identifier.Spells s.toList ∧ s ∉ keywords

/-- A constant that source text denotes. -/
def Literal.Printable : Literal → Prop
  | nil | boolean _ | string _ => True
  | integer n => (Nat.toDigits 10 n.natAbs).length ≤ maxIntegerDigits
  | decimal d => ∃ coefficient exponent, d.magnitude = .finite coefficient exponent ∧ exponent ≤ -1
  | character s => s.length = 1

namespace Expression

/-- The level of the outermost operator, or the one above all operators. -/
def rank : Expression → Nat
  | binary o _ _ => o.level
  | _ => 4

mutual

def Printable : Expression → Prop
  | literal v => v.Printable
  | group e => Printable e
  | name s => IsPlainName s
  | member r s => Printable r ∧ r.rank = 4 ∧ IsPlainName s
  | call s es => IsPlainName s ∧ AllPrintable es
  | methodCall r s es => Printable r ∧ r.rank = 4 ∧ IsPlainName s ∧ AllPrintable es
  | binary o l r => Printable l ∧ Printable r ∧ o.level ≤ l.rank ∧ o.level < r.rank

def AllPrintable : List Expression → Prop
  | [] => True
  | e :: es => Printable e ∧ AllPrintable es

end

end Expression

def InitializerPrintable (o : Option Expression) : Prop := ∀ e ∈ o, e.Printable

def BindingPrintable (o : Option Binding) : Prop := ∀ b ∈ o, IsPlainName b.name ∧ b.value.Printable

namespace Statement

mutual

def Printable : Statement → Prop
  | expression e => e.Printable
  | declaration s v => IsPlainName s ∧ InitializerPrintable v
  | assignment e v => e.Printable ∧ v.Printable
  | branch c yes no => c.Printable ∧ AllPrintable yes ∧ AllPrintable no
  | forLoop i c j ss => BindingPrintable i ∧ c.Printable ∧ BindingPrintable j ∧ AllPrintable ss
  | whileLoop c ss => c.Printable ∧ AllPrintable ss
  | exit v => InitializerPrintable v

def AllPrintable : List Statement → Prop
  | [] => True
  | s :: ss => Printable s ∧ AllPrintable ss

end

end Statement

def Field.Printable (f : Field) : Prop := IsPlainName f.name ∧ InitializerPrintable f.value

def Method.Printable (m : Method) : Prop :=
  IsPlainName m.name ∧ (∀ s ∈ m.parameters, IsPlainName s) ∧ Statement.AllPrintable m.body

def Program.Printable (p : Program) : Prop :=
  (∀ f ∈ p.fields, f.Printable) ∧ ∀ m ∈ p.methods, m.Printable

end FrontEnd
