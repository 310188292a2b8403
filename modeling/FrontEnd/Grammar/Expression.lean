import FrontEnd.Syntax
import FrontEnd.Grammar.Constant
import FrontEnd.Grammar.Rule

/-!
# The grammar of expressions

    expression := chain of level 0
    chain k    := chain k+1 (operator of level k, chain k+1)*
    chain 4    := operand ("." name arguments?)*
    operand    := constant | "(" expression ")" | name arguments?
    arguments  := "(" (expression ("," expression)*)? ")"

Each rule takes the rule for the expressions inside it, so that the depth of nesting is bounded in
one place.
-/

namespace FrontEnd.Grammar

open Rule

/-- The arguments of a call after the opening parenthesis. -/
def arguments (expression : Rule Expression) : Rule (List Expression) := do
  if ← accept [.text ")"] then
    return []
  else
    let first ← expression
    let others ← many (behind (.text ",") expression)
    let _ ← expect (.text ")") .argumentsEnd
    return first :: others

/-- A group after the opening parenthesis. -/
def group (expression : Rule Expression) : Rule Expression := do
  let content ← expression
  let _ ← expect (.text ")") .groupEnd
  return .group content

/-- A variable or a call after the name. -/
def named (expression : Rule Expression) (name : String) : Rule Expression := do
  if ← accept [.text "("] then
    let as ← arguments expression
    return .call name as
  else
    return .name name

/-- An operand without members. Its first token decides what it is. -/
def operand (expression : Rule Expression) : Rule Expression := fun ts =>
  match ts with
  | [] => .error (.syntactic .operand) []
  | t :: r =>
    match constant? t with
    | some (.ok value) => .ok (.literal value) r
    | some (.error kind) => .error (.numeral kind) r
    | none =>
      if t.text = "(" then group expression r
      else if t.kind = .identifier then named expression t.text r
      else .error (.syntactic .operand) (t :: r)

/-- A member or method of a receiver after the point. -/
def memberOf (expression : Rule Expression) (receiver : Expression) : Rule Expression := do
  let member ← name .memberName
  if ← accept [.text "("] then
    let as ← arguments expression
    return .methodCall receiver member as
  else
    return .member receiver member

/-- A member or method of a receiver, if a point follows. -/
def link (expression : Rule Expression) (receiver : Expression) : Rule (Option Expression) :=
  behind (.text ".") (memberOf expression receiver)

/-- An operand with its members. -/
def linked (expression : Rule Expression) : Rule Expression := do
  let first ← operand expression
  repeatedly (link expression) first

/-- Reads an operator of a level, if one is next. -/
def operatorOf (level : Nat) : Rule (Option Operator) := fun ts =>
  match ts with
  | [] => .ok none []
  | t :: r =>
    match Operator.ofSymbol? t.text with
    | some o => if o.level = level then .ok (some o) r else .ok none (t :: r)
    | none => .ok none (t :: r)

/-- The next operator of a level with its right operand, applied to the left one. -/
def extend (level : Nat) (item : Rule Expression) (left : Expression) :
    Rule (Option Expression) := do
  match ← operatorOf level with
  | none => return none
  | some o =>
    let right ← item
    return some (.binary o left right)

/-- A run of operators of one level, nested on the left. -/
def chain (level : Nat) (item : Rule Expression) : Rule Expression := do
  let first ← item
  repeatedly (extend level item) first

/-- A bounded number of expressions and statements may stand inside each other. -/
def maxNesting : Nat := 64

/-- An expression inside which a given number of levels is left, itself included. -/
def expression : Nat → Rule Expression
  | 0 => fail .nestingTooDeep
  | depth + 1 => chain 0 (chain 1 (chain 2 (chain 3 (linked (expression depth)))))

end FrontEnd.Grammar
