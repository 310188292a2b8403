import FrontEnd.Syntax
import FrontEnd.Grammar.Statement

/-!
# The grammar of programs

    program    := (field | method)*
    field      := "LET" "CONST"? name ("=" expression)? ";"
    method     := "DEF" name "(" (name ("," name)*)? ")" "DO" statement* "END"

Every rule takes the number of levels that expressions and statements may be nested.
-/

namespace FrontEnd.Grammar

open Rule

/-- A field after its keyword. -/
def fieldRest (depth : Nat) : Rule Field := do
  let constant ← accept [.text "CONST"]
  let fieldName ← name .fieldName
  let value ← initializer (expression depth)
  let _ ← expect (.text ";") .fieldEnd
  return ⟨fieldName, constant, value⟩

def field (depth : Nat) : Rule Field := do
  let _ ← expect (.text "LET") .fieldKeyword
  fieldRest depth

/-- The parameters of a method between its parentheses. -/
def parameters : Rule (List String) := do
  if ← ahead [.kind .identifier] then
    let first ← name .parameterName
    let others ← many (behind (.text ",") (name .parameterName))
    return first :: others
  else
    return []

/-- A method after its keyword. -/
def methodRest (depth : Nat) : Rule Method := do
  let methodName ← name .methodName
  let _ ← expect (.text "(") .parametersOpen
  let names ← parameters
  let _ ← expect (.text ")") .parametersClose
  let _ ← expect (.text "DO") .bodyStart
  let statements ← body (statement depth)
  return ⟨methodName, names, statements⟩

def method (depth : Nat) : Rule Method := do
  let _ ← expect (.text "DEF") .methodKeyword
  methodRest depth

/-- A field or a method, which may come in any order. -/
inductive Definition where
  | field (value : Field)
  | method (value : Method)

def Definition.field? : Definition → Option Field
  | field value => some value
  | method _ => none

def Definition.method? : Definition → Option Method
  | field _ => none
  | method value => some value

/-- The next field or method, if any token is left. -/
def definition (depth : Nat) : Rule (Option Definition) := do
  if ← atEnd then
    return none
  else if ← ahead [.text "LET"] then
    let f ← field depth
    return some (.field f)
  else if ← ahead [.text "DEF"] then
    let m ← method depth
    return some (.method m)
  else
    fail .definition

/-- A program made of all tokens. -/
def program (depth : Nat) : Rule Program := do
  let definitions ← many (definition depth)
  return ⟨definitions.filterMap Definition.field?, definitions.filterMap Definition.method?⟩

inductive Goal where
  | program
  | field
  | method
  | statement
  | expression
deriving DecidableEq

/-- The rule for a kind of construct. -/
def construct (depth : Nat) : Goal → Rule Construct
  | .program => Construct.program <$> program depth
  | .field => Construct.field <$> field depth
  | .method => Construct.method <$> method depth
  | .statement => Construct.statement <$> statement depth
  | .expression => Construct.expression <$> expression depth

end FrontEnd.Grammar
