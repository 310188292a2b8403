import FrontEnd.Syntax

/-!
# Equality up to the values of numbers

Two syntax trees are equivalent if they have the same shape and names and equivalent constants.
Booleans, integers and decimals are equivalent when their values agree; the other constants only
when they are the same.
-/

namespace FrontEnd

namespace Literal

/-- The number that a literal counts as: truth is one and falsehood zero. -/
def number? : Literal → Option Decimal
  | boolean value => some (.ofInt (if value then 1 else 0))
  | integer value => some (.ofInt value)
  | decimal value => some value
  | nil | character _ | string _ => none

/-- Equality of constants: numbers by their values, all others by kind and text. -/
def equivalent (a b : Literal) : Bool :=
  match a.number?, b.number? with
  | some x, some y => x.sameValue y
  | none, none => a == b
  | _, _ => false

end Literal

namespace Expression

mutual

@[simp] def equivalent : Expression → Expression → Bool
  | literal a, literal b => a.equivalent b
  | group a, group b => equivalent a b
  | name m, name n => m == n
  | member a m, member b n => equivalent a b && m == n
  | call m as, call n bs => m == n && equivalentAll as bs
  | methodCall a m as, methodCall b n bs => equivalent a b && m == n && equivalentAll as bs
  | binary o a b, binary p c d => o == p && equivalent a c && equivalent b d
  | _, _ => false

@[simp] def equivalentAll : List Expression → List Expression → Bool
  | [], [] => true
  | a :: as, b :: bs => equivalent a b && equivalentAll as bs
  | _, _ => false

end

end Expression

def optionEquivalent {α : Type} (eq : α → α → Bool) : Option α → Option α → Bool
  | none, none => true
  | some a, some b => eq a b
  | _, _ => false

@[simp] def Binding.equivalent (a b : Binding) : Bool :=
  a.name == b.name && a.value.equivalent b.value

namespace Statement

mutual

@[simp] def equivalent : Statement → Statement → Bool
  | expression a, expression b => a.equivalent b
  | declaration m a, declaration n b => m == n && optionEquivalent Expression.equivalent a b
  | assignment a b, assignment c d => a.equivalent c && b.equivalent d
  | branch a t e, branch b u f => a.equivalent b && equivalentAll t u && equivalentAll e f
  | forLoop i a j s, forLoop k b l t =>
    optionEquivalent Binding.equivalent i k && a.equivalent b &&
      optionEquivalent Binding.equivalent j l && equivalentAll s t
  | whileLoop a s, whileLoop b t => a.equivalent b && equivalentAll s t
  | exit a, exit b => optionEquivalent Expression.equivalent a b
  | _, _ => false

@[simp] def equivalentAll : List Statement → List Statement → Bool
  | [], [] => true
  | a :: as, b :: bs => equivalent a b && equivalentAll as bs
  | _, _ => false

end

end Statement

@[simp] def Field.equivalent (a b : Field) : Bool :=
  a.name == b.name && a.constant == b.constant &&
    optionEquivalent Expression.equivalent a.value b.value

@[simp] def Method.equivalent (a b : Method) : Bool :=
  a.name == b.name && a.parameters == b.parameters && Statement.equivalentAll a.body b.body

def Program.equivalent (a b : Program) : Bool :=
  a.fields.isEqv b.fields Field.equivalent && a.methods.isEqv b.methods Method.equivalent

def Construct.equivalent : Construct → Construct → Bool
  | program a, program b => a.equivalent b
  | field a, field b => a.equivalent b
  | method a, method b => a.equivalent b
  | statement a, statement b => a.equivalent b
  | expression a, expression b => a.equivalent b
  | _, _ => false

end FrontEnd
