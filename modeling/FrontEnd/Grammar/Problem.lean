/-!
# Syntactic problems

The reasons for which tokens cannot be read as a construct of the language, and their wording.
-/

namespace FrontEnd

/-- What the grammar asks for at some place and does not find there. -/
inductive SyntaxCause where
  | definition
  | fieldKeyword
  | fieldName
  | fieldEnd
  | methodKeyword
  | methodName
  | parametersOpen
  | parameterName
  | parametersClose
  | bodyStart
  | blockEnd
  | branchEnd
  | variableName
  | declarationEnd
  | conditionEnd
  | headerOpen
  | initializationEnd
  | loopConditionEnd
  | headerClose
  | exitEnd
  | assignmentEnd
  | expressionEnd
  | memberName
  | groupEnd
  | argumentsEnd
  | operand
  | nestingTooDeep
deriving DecidableEq

def SyntaxCause.message : SyntaxCause → String
  | definition => "expected 'LET' or 'DEF'"
  | fieldKeyword => "expected 'LET'"
  | fieldName => "expected field name"
  | fieldEnd => "expected ';' after field"
  | methodKeyword => "expected 'DEF'"
  | methodName => "expected method name"
  | parametersOpen => "expected '(' after method name"
  | parameterName => "expected parameter name after ','"
  | parametersClose => "expected ')' after parameters"
  | bodyStart => "expected 'DO' before method body"
  | blockEnd => "expected 'END'"
  | branchEnd => "expected 'ELSE' or 'END'"
  | variableName => "expected variable name"
  | declarationEnd => "expected ';' after declaration"
  | conditionEnd => "expected 'DO' after condition"
  | headerOpen => "expected '(' after 'FOR'"
  | initializationEnd => "expected ';' after loop initialization"
  | loopConditionEnd => "expected ';' after loop condition"
  | headerClose => "expected ')' after loop increment"
  | exitEnd => "expected ';' after return"
  | assignmentEnd => "expected ';' after assignment"
  | expressionEnd => "expected ';' after expression"
  | memberName => "expected member name after '.'"
  | groupEnd => "expected ')' after grouped expression"
  | argumentsEnd => "expected ',' or ')' in argument list"
  | operand => "expected expression"
  | nestingTooDeep => "nesting too deep"

/-- The two kinds of numerals. -/
inductive NumeralKind where
  | integer
  | decimal
deriving DecidableEq

/-- Why tokens cannot be read: the grammar is violated in front of a token, or a token said to be
a numeral denotes no number that is supported. -/
inductive Problem where
  | syntactic (cause : SyntaxCause)
  | numeral (kind : NumeralKind)
deriving DecidableEq

end FrontEnd
