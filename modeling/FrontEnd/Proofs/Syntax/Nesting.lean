import FrontEnd.Syntax

/-!
# Nesting

How deep expressions and statements stand inside each other. Operators and members add no depth; a
group, an argument and a statement with all that is directly inside it are one level each.
-/

namespace FrontEnd

namespace Expression

mutual

/-- The deepest nesting of the expressions strictly inside an expression. -/
def inner : Expression → Nat
  | literal _ => 0
  | name _ => 0
  | group content => inner content + 1
  | member receiver _ => inner receiver
  | call _ arguments => innerAll arguments
  | methodCall receiver _ arguments => max (inner receiver) (innerAll arguments)
  | binary _ left right => max (inner left) (inner right)

def innerAll : List Expression → Nat
  | [] => 0
  | e :: es => max (inner e + 1) (innerAll es)

end

def nesting (e : Expression) : Nat := e.inner + 1

end Expression

def optionNesting (o : Option Expression) : Nat := o.elim 0 Expression.nesting

def bindingNesting (o : Option Binding) : Nat := o.elim 0 fun b => b.value.nesting

namespace Statement

mutual

/-- The deepest nesting of what stands directly inside a statement. -/
def inner : Statement → Nat
  | expression value => value.nesting
  | declaration _ value => optionNesting value
  | assignment receiver value => max receiver.nesting value.nesting
  | branch condition thenPart elsePart =>
    max condition.nesting (max (innerAll thenPart) (innerAll elsePart))
  | forLoop initialization condition increment body =>
    max (bindingNesting initialization)
      (max condition.nesting (max (bindingNesting increment) (innerAll body)))
  | whileLoop condition body => max condition.nesting (innerAll body)
  | exit value => optionNesting value

def innerAll : List Statement → Nat
  | [] => 0
  | s :: ss => max (inner s + 1) (innerAll ss)

end

def nesting (s : Statement) : Nat := s.inner + 1

end Statement

namespace Program

/-- The deepest nesting of the values of fields and the statements of methods. -/
def nesting (p : Program) : Nat :=
  max ((p.fields.map fun f => optionNesting f.value).foldr max 0)
    ((p.methods.map fun m => Statement.innerAll m.body).foldr max 0)

end Program

end FrontEnd
