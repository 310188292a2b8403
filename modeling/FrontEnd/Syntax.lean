import FrontEnd.Number

/-!
# Syntax trees

Operands are constants, names, calls and groups; a point applies a member or a method to the
operand before it, and the twelve binary operators have four levels. A program has fields and
methods. The constructs of the language are what a source or a part of it can be read as.
-/

namespace FrontEnd

/-- A constant. A character holds one character if it comes from source text; tokens made by hand
can give it any text. -/
inductive Literal where
  | nil
  | boolean (value : Bool)
  | integer (value : Int)
  | decimal (value : Decimal)
  | character (value : String)
  | string (value : String)
deriving DecidableEq

/-- The binary operators. -/
inductive Operator where
  | and
  | or
  | equal
  | notEqual
  | less
  | lessEqual
  | greater
  | greaterEqual
  | add
  | subtract
  | multiply
  | divide
deriving DecidableEq

namespace Operator

/-- How an operator is written. -/
def symbol : Operator → String
  | and => "&&"
  | or => "||"
  | equal => "=="
  | notEqual => "!="
  | less => "<"
  | lessEqual => "<="
  | greater => ">"
  | greaterEqual => ">="
  | add => "+"
  | subtract => "-"
  | multiply => "*"
  | divide => "/"

/-- The operator that is written so. -/
def ofSymbol? : String → Option Operator
  | "&&" => some and
  | "||" => some or
  | "==" => some equal
  | "!=" => some notEqual
  | "<" => some less
  | "<=" => some lessEqual
  | ">" => some greater
  | ">=" => some greaterEqual
  | "+" => some add
  | "-" => some subtract
  | "*" => some multiply
  | "/" => some divide
  | _ => none

/-- The level of an operator; a higher level binds more strongly. -/
def level : Operator → Nat
  | and | or => 0
  | equal | notEqual | less | lessEqual | greater | greaterEqual => 1
  | add | subtract => 2
  | multiply | divide => 3

theorem ofSymbol?_symbol (o : Operator) : ofSymbol? o.symbol = some o := by
  cases o <;> rfl

theorem symbol_of_ofSymbol? {s : String} {o : Operator} (h : ofSymbol? s = some o) :
    o.symbol = s := by
  unfold ofSymbol? at h
  split at h <;> simp_all [symbol] <;> subst h <;> rfl

end Operator

/-- An expression as written: groups stay visible, operators of one level nest on the left. -/
inductive Expression where
  | literal (value : Literal)
  | group (content : Expression)
  | name (name : String)
  | member (receiver : Expression) (name : String)
  | call (name : String) (arguments : List Expression)
  | methodCall (receiver : Expression) (name : String) (arguments : List Expression)
  | binary (operator : Operator) (left right : Expression)

/-- A name and the value it gets, as in the header of a loop. -/
structure Binding where
  name : String
  value : Expression

/-- A statement of a method. A missing or empty else-part is an empty list. -/
inductive Statement where
  | expression (value : Expression)
  | declaration (name : String) (value : Option Expression)
  | assignment (receiver value : Expression)
  | branch (condition : Expression) (thenPart elsePart : List Statement)
  | forLoop (initialization : Option Binding) (condition : Expression)
      (increment : Option Binding) (body : List Statement)
  | whileLoop (condition : Expression) (body : List Statement)
  | exit (value : Option Expression)

/-- A global variable or constant. -/
structure Field where
  name : String
  constant : Bool
  value : Option Expression

/-- A method with its parameters and statements. -/
structure Method where
  name : String
  parameters : List String
  body : List Statement

/-- A whole program, its fields and its methods each in source order. -/
structure Program where
  fields : List Field
  methods : List Method

/-- A syntax tree of any construct. -/
inductive Construct where
  | program (value : Program)
  | field (value : Field)
  | method (value : Method)
  | statement (value : Statement)
  | expression (value : Expression)

end FrontEnd
