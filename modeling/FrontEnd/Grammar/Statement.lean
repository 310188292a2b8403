import FrontEnd.Syntax
import FrontEnd.Grammar.Expression

/-!
# The grammar of statements

    statement   := "LET" name ("=" expression)? ";"
                 | "IF" expression "DO" statement* ("ELSE" statement*)? "END"
                 | "FOR" "(" binding? ";" expression ";" binding? ")" statement* "END"
                 | "WHILE" expression "DO" statement* "END"
                 | "RETURN" expression? ";"
                 | expression ("=" expression)? ";"
    binding     := name "=" expression
-/

namespace FrontEnd.Grammar

open Rule

/-- The next statement, unless a closing keyword is next. -/
def blockItem (closing : List String) (cause : SyntaxCause) (statement : Rule Statement) :
    Rule (Option Statement) := do
  if ← aheadOneOf closing then
    return none
  else if ← atEnd then
    fail cause
  else
    let s ← statement
    return some s

/-- Statements up to a closing keyword, which is not read. -/
def block (closing : List String) (cause : SyntaxCause) (statement : Rule Statement) :
    Rule (List Statement) :=
  many (blockItem closing cause statement)

/-- Statements up to the end of the construct, which is read. -/
def body (statement : Rule Statement) : Rule (List Statement) := do
  let statements ← block ["END"] .blockEnd statement
  let _ ← expect (.text "END") .blockEnd
  return statements

/-- A value after an equals sign, if there is one. -/
def initializer (expression : Rule Expression) : Rule (Option Expression) :=
  behind (.text "=") expression

/-- A declaration after its keyword. -/
def declaration (expression : Rule Expression) : Rule Statement := do
  let variableName ← name .variableName
  let value ← initializer expression
  let _ ← expect (.text ";") .declarationEnd
  return .declaration variableName value

/-- The second part of a conditional, which is empty if its keyword is not next. -/
def elsePart (statement : Rule Statement) : Rule (List Statement) := do
  if ← accept [.text "ELSE"] then block ["END"] .blockEnd statement else return []

/-- A conditional after its keyword. -/
def branch (expression : Rule Expression) (statement : Rule Statement) : Rule Statement := do
  let condition ← expression
  let _ ← expect (.text "DO") .conditionEnd
  let thenStatements ← block ["ELSE", "END"] .branchEnd statement
  let elseStatements ← elsePart statement
  let _ ← expect (.text "END") .blockEnd
  return .branch condition thenStatements elseStatements

/-- A binding in the header of a loop, if the next two tokens start one. -/
def binding (expression : Rule Expression) : Rule (Option Binding) := fun ts =>
  match ts with
  | variableName :: equals :: r =>
    if startsAs [.kind .identifier, .text "="] ts then
      (do
        let value ← expression
        return some ⟨variableName.text, value⟩ : Rule (Option Binding)) r
    else .ok none (variableName :: equals :: r)
  | _ => .ok none ts

/-- A counting loop after its keyword. -/
def forLoop (expression : Rule Expression) (statement : Rule Statement) : Rule Statement := do
  let _ ← expect (.text "(") .headerOpen
  let initialization ← binding expression
  let _ ← expect (.text ";") .initializationEnd
  let condition ← expression
  let _ ← expect (.text ";") .loopConditionEnd
  let increment ← binding expression
  let _ ← expect (.text ")") .headerClose
  let statements ← body statement
  return .forLoop initialization condition increment statements

/-- A conditional loop after its keyword. -/
def whileLoop (expression : Rule Expression) (statement : Rule Statement) : Rule Statement := do
  let condition ← expression
  let _ ← expect (.text "DO") .conditionEnd
  let statements ← body statement
  return .whileLoop condition statements

/-- A value, unless the statement ends here. -/
def exitValue (expression : Rule Expression) : Rule (Option Expression) := do
  if ← ahead [.text ";"] then
    return none
  else
    let e ← expression
    return some e

/-- An exit from a method after its keyword. -/
def exit (expression : Rule Expression) : Rule Statement := do
  let value ← exitValue expression
  let _ ← expect (.text ";") .exitEnd
  return .exit value

/-- An assignment to an expression, or that expression on its own. -/
def effectOf (expression : Rule Expression) (target : Expression) : Rule Statement := do
  if ← accept [.text "="] then
    let value ← expression
    let _ ← expect (.text ";") .assignmentEnd
    return .assignment target value
  else
    let _ ← expect (.text ";") .expressionEnd
    return .expression target

/-- An assignment or an expression on its own. -/
def effect (expression : Rule Expression) : Rule Statement := do
  let target ← expression
  effectOf expression target

/-- A statement, told by its first token. -/
def anyStatement (expression : Rule Expression) (statement : Rule Statement) :
    Rule Statement := do
  if ← accept [.text "LET"] then declaration expression
  else if ← accept [.text "IF"] then branch expression statement
  else if ← accept [.text "FOR"] then forLoop expression statement
  else if ← accept [.text "WHILE"] then whileLoop expression statement
  else if ← accept [.text "RETURN"] then exit expression
  else effect expression

/-- A statement inside which a given number of levels is left, itself included. -/
def statement : Nat → Rule Statement
  | 0 => fail .nestingTooDeep
  | depth + 1 => anyStatement (expression depth) (statement depth)

end FrontEnd.Grammar
