import FrontEnd.Dump.Outline
import FrontEnd.Character.Printable
import FrontEnd.Syntax

/-!
# Dumps of syntax trees

The outline of a syntax tree has one heading for each node, `-` for an optional part that is
absent, and headings for the two parts of a conditional. Trees are untyped here: a place for a
part can hold any node, or an alien that the dump stops at. It also stops at an integer constant
that is too long to be printed. Constants that are texts are printed between quotes on one line:
backslashes, the quote in use and unprintable characters are escaped, everything else stands for
itself.
-/

namespace FrontEnd

/-- A syntax tree in which any node or alien can stand at any place. -/
inductive Tree where
  | alien (a : Alien)
  | program (fields methods : List Tree)
  | field (name : String) (constant : Bool) (value : Tree)
  | method (name : String) (parameters : List String) (body : List Tree)
  | effect (expression : Tree)
  | declaration (name : String) (value : Tree)
  | assignment (receiver value : Tree)
  | branch (condition : Tree) (thenPart elsePart : List Tree)
  | forLoop (initialization condition increment : Tree) (body : List Tree)
  | whileLoop (condition : Tree) (body : List Tree)
  | exit (value : Tree)
  | literal (value : Literal)
  | group (content : Tree)
  | access (receiver : Tree) (name : String)
  | call (receiver : Tree) (name : String) (arguments : List Tree)
  | binary (operator : String) (left right : Tree)

namespace Quoted

/-- Single quotes, unless that would force an escape that double quotes avoid. -/
def quoteFor (cs : List Char) : Char :=
  if cs.contains '\'' && !cs.contains '"' then '"' else '\''

/-- Lower-case hexadecimal digits of a number, with zeros in front up to a width. -/
def hex (width n : Nat) : List Char :=
  let digits := Nat.toDigits 16 n
  List.replicate (width - digits.length) '0' ++ digits

/-- A character inside quotes. -/
def character (quote c : Char) : List Char :=
  if c = quote ∨ c = '\\' then ['\\', c]
  else if c = '\n' then ['\\', 'n']
  else if c = '\r' then ['\\', 'r']
  else if c = '\t' then ['\\', 't']
  else if isPrintable c then [c]
  else if c.toNat < 0x100 then '\\' :: 'x' :: hex 2 c.toNat
  else if c.toNat < 0x10000 then '\\' :: 'u' :: hex 4 c.toNat
  else '\\' :: 'U' :: hex 8 c.toNat

/-- A text between quotes. -/
def text (s : String) : String :=
  let quote := quoteFor s.toList
  String.ofList (quote :: (s.toList.flatMap (character quote) ++ [quote]))

end Quoted

/-- The printed form of a constant. -/
def Literal.text : Literal → String
  | nil => "NIL"
  | boolean value => if value then "TRUE" else "FALSE"
  | integer value => toString value
  | decimal value => value.text
  | character value => "Char(" ++ Quoted.text value ++ ")"
  | string value => Quoted.text value

/-- An integer is printed only if it has no more digits than an integer numeral that is read. -/
def Literal.isOverlong : Literal → Bool
  | integer value => maxIntegerDigits < (Nat.toDigits 10 value.natAbs).length
  | _ => false

namespace Tree

mutual

/-- The outline of a tree. -/
@[simp] def outline : Tree → Outline
  | alien a => .obstacle (.alien a)
  | program fields methods => .entry "Source" (outlines fields ++ outlines methods)
  | field name constant value =>
    .entry ("Field" ++ (if constant then " CONST" else "") ++ " " ++ name) [(outline value).marked]
  | method name parameters body =>
    .entry ("Method " ++ name ++ "(" ++ ", ".intercalate parameters ++ ")") (outlines body)
  | effect expression => .entry "ExpressionStatement" [outline expression]
  | declaration name value => .entry ("Declaration " ++ name) [(outline value).marked]
  | assignment receiver value => .entry "Assignment" [outline receiver, outline value]
  | branch condition thenPart elsePart =>
    .entry "If" (outline condition :: .entry "Then" (outlines thenPart) ::
      Outline.headed "Else" (outlines elsePart))
  | forLoop initialization condition increment body =>
    .entry "For" ((outline initialization).marked :: outline condition ::
      (outline increment).marked :: outlines body)
  | whileLoop condition body => .entry "While" (outline condition :: outlines body)
  | exit value => .entry "Return" [(outline value).marked]
  | literal value =>
    if value.isOverlong then .obstacle .overlong else .entry ("Literal(" ++ value.text ++ ")") []
  | group content => .entry "Group" [outline content]
  | access receiver name => .entry ("Access " ++ name) (outline receiver).ifPresent
  | call receiver name arguments =>
    .entry ("Function " ++ name ++ "/" ++ toString arguments.length)
      ((outline receiver).ifPresent ++ outlines arguments)
  | binary operator left right => .entry ("Binary " ++ operator) [outline left, outline right]

@[simp] def outlines : List Tree → List Outline
  | [] => []
  | t :: ts => outline t :: outlines ts

end

/-- The tree at an optional place. -/
def ofOption : Option Tree → Tree
  | none => alien .absence
  | some t => t

/-- The dump of a tree. -/
def dump (t : Tree) : Listing := t.outline.listing 0

end Tree

namespace Expression

mutual

/-- An expression as an untyped tree. -/
@[simp] def tree : Expression → Tree
  | literal value => .literal value
  | group content => .group (tree content)
  | name n => .access (.alien .absence) n
  | member receiver n => .access (tree receiver) n
  | call n as => .call (.alien .absence) n (trees as)
  | methodCall receiver n as => .call (tree receiver) n (trees as)
  | binary o left right => .binary o.symbol (tree left) (tree right)

@[simp] def trees : List Expression → List Tree
  | [] => []
  | e :: es => tree e :: trees es

end

end Expression

/-- A binding that initializes a loop is shown as a declaration. -/
def Binding.initializationTree (b : Binding) : Tree := .declaration b.name b.value.tree

/-- A binding that steps a loop is shown as an assignment. -/
def Binding.incrementTree (b : Binding) : Tree :=
  .assignment (.access (.alien .absence) b.name) b.value.tree

namespace Statement

mutual

/-- A statement as an untyped tree. -/
@[simp] def tree : Statement → Tree
  | expression value => .effect value.tree
  | declaration name value => .declaration name (.ofOption (value.map Expression.tree))
  | assignment receiver value => .assignment receiver.tree value.tree
  | branch condition thenPart elsePart =>
    .branch condition.tree (trees thenPart) (trees elsePart)
  | forLoop initialization condition increment body =>
    .forLoop (.ofOption (initialization.map Binding.initializationTree)) condition.tree
      (.ofOption (increment.map Binding.incrementTree)) (trees body)
  | whileLoop condition body => .whileLoop condition.tree (trees body)
  | exit value => .exit (.ofOption (value.map Expression.tree))

@[simp] def trees : List Statement → List Tree
  | [] => []
  | s :: ss => tree s :: trees ss

end

end Statement

def Field.tree (f : Field) : Tree :=
  .field f.name f.constant (.ofOption (f.value.map Expression.tree))

def Method.tree (m : Method) : Tree := .method m.name m.parameters (Statement.trees m.body)

def Program.tree (p : Program) : Tree :=
  .program (p.fields.map Field.tree) (p.methods.map Method.tree)

def Construct.tree : Construct → Tree
  | program value => value.tree
  | field value => value.tree
  | method value => value.tree
  | statement value => value.tree
  | expression value => value.tree

end FrontEnd
