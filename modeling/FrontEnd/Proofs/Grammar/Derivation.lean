import FrontEnd.Proofs.Lexical.Constant
import FrontEnd.Syntax

/-!
# Derivations

The grammar of the language as an inductive relation between a nonterminal, the tokens derived from
it and the tree of the derivation:

    source      := (field | method)*
    field       := "LET" "CONST"? name initializer ";"
    method      := "DEF" name "(" names ")" "DO" statements "END"
    statement   := "LET" name initializer ";"
                 | "IF" expression "DO" statements elsePart "END"
                 | "FOR" "(" binding ";" expression ";" binding ")" statements "END"
                 | "WHILE" expression "DO" statements "END"
                 | "RETURN" expression? ";"
                 | expression ("=" expression)? ";"
    expression  := level 0
    level k     := level k+1 (operator of level k, level k+1)*       for k < 4
    level 4     := secondary
    secondary   := primary ("." name actuals?)*
    primary     := constant | "(" expression ")" | name actuals?
    actuals     := "(" (expression ("," expression)*)? ")"

Quoted terminals match a token by its text and the others by its kind. A derivation says which
texts it admits as names.
-/

namespace FrontEnd

inductive Nonterminal where
  | source
  | field
  | method
  | names
  | moreNames
  | statements
  | statement
  | elsePart
  | initializer
  | binding
  | expression
  | level (k : Nat)
  | secondary
  | primary
  | actuals
  | arguments
  | moreArguments

/-- What a derivation from a nonterminal builds. -/
abbrev Nonterminal.Tree : Nonterminal → Type
  | source => Program
  | field => Field
  | method => Method
  | names | moreNames => List String
  | statements | elsePart => List Statement
  | statement => Statement
  | initializer => Option Expression
  | binding => Option Binding
  | expression | level _ | secondary | primary => Expression
  | actuals | arguments | moreArguments => List Expression

/-- The words that have a meaning of their own in the grammar. -/
def keywords : List String :=
  ["LET", "CONST", "DEF", "DO", "END", "IF", "ELSE", "FOR", "WHILE", "RETURN", "NIL", "TRUE",
    "FALSE"]

/-- A token in the place of a name. -/
def IsName (admits : String → Prop) (t : Token) : Prop := t.kind = .identifier ∧ admits t.text

inductive Derives (admits : String → Prop) : (n : Nonterminal) → List Token → n.Tree → Prop
  | noDefinition : Derives admits .source [] ⟨[], []⟩
  | sourceField {xs ys : List Token} {f : Field} {p : Program} (hf : Derives admits .field xs f)
      (hp : Derives admits .source ys p) :
      Derives admits .source (xs ++ ys) ⟨f :: p.fields, p.methods⟩
  | sourceMethod {xs ys : List Token} {m : Method} {p : Program}
      (hm : Derives admits .method xs m) (hp : Derives admits .source ys p) :
      Derives admits .source (xs ++ ys) ⟨p.fields, m :: p.methods⟩
  | field {l n s : Token} {xs : List Token} {v : Option Expression} (hl : l.text = "LET")
      (hn : IsName admits n) (hv : Derives admits .initializer xs v) (hs : s.text = ";") :
      Derives admits .field (l :: n :: (xs ++ [s])) ⟨n.text, false, v⟩
  | constantField {l c n s : Token} {xs : List Token} {v : Option Expression}
      (hl : l.text = "LET") (hc : c.text = "CONST") (hn : IsName admits n)
      (hv : Derives admits .initializer xs v) (hs : s.text = ";") :
      Derives admits .field (l :: c :: n :: (xs ++ [s])) ⟨n.text, true, v⟩
  | method {d n o c w e : Token} {xs ys : List Token} {ps : List String} {ss : List Statement}
      (hd : d.text = "DEF") (hn : IsName admits n) (ho : o.text = "(")
      (hp : Derives admits .names xs ps) (hc : c.text = ")") (hw : w.text = "DO")
      (hs : Derives admits .statements ys ss) (he : e.text = "END") :
      Derives admits .method (d :: n :: o :: (xs ++ c :: w :: (ys ++ [e]))) ⟨n.text, ps, ss⟩
  | noName : Derives admits .names [] []
  | names {n : Token} {xs : List Token} {ps : List String} (hn : IsName admits n)
      (hp : Derives admits .moreNames xs ps) : Derives admits .names (n :: xs) (n.text :: ps)
  | lastName : Derives admits .moreNames [] []
  | moreNames {k n : Token} {xs : List Token} {ps : List String} (hk : k.text = ",")
      (hn : IsName admits n) (hp : Derives admits .moreNames xs ps) :
      Derives admits .moreNames (k :: n :: xs) (n.text :: ps)
  | noStatement : Derives admits .statements [] []
  | statements {xs ys : List Token} {s : Statement} {ss : List Statement}
      (hs : Derives admits .statement xs s) (hss : Derives admits .statements ys ss) :
      Derives admits .statements (xs ++ ys) (s :: ss)
  | declaration {l n s : Token} {xs : List Token} {v : Option Expression} (hl : l.text = "LET")
      (hn : IsName admits n) (hv : Derives admits .initializer xs v) (hs : s.text = ";") :
      Derives admits .statement (l :: n :: (xs ++ [s])) (.declaration n.text v)
  | branch {i d e : Token} {xs ys zs : List Token} {c : Expression} {ts es : List Statement}
      (hi : i.text = "IF") (hc : Derives admits .expression xs c) (hd : d.text = "DO")
      (ht : Derives admits .statements ys ts) (hes : Derives admits .elsePart zs es)
      (he : e.text = "END") :
      Derives admits .statement (i :: (xs ++ d :: (ys ++ (zs ++ [e])))) (.branch c ts es)
  | forLoop {f o s s' c e : Token} {xs ys zs ws : List Token} {i j : Option Binding}
      {condition : Expression} {ss : List Statement} (hf : f.text = "FOR") (ho : o.text = "(")
      (hi : Derives admits .binding xs i) (hs : s.text = ";")
      (hcond : Derives admits .expression ys condition) (hs' : s'.text = ";")
      (hj : Derives admits .binding zs j) (hc : c.text = ")")
      (hss : Derives admits .statements ws ss) (he : e.text = "END") :
      Derives admits .statement
        (f :: o :: (xs ++ s :: (ys ++ s' :: (zs ++ c :: (ws ++ [e])))))
        (.forLoop i condition j ss)
  | whileLoop {w d e : Token} {xs ys : List Token} {c : Expression} {ss : List Statement}
      (hw : w.text = "WHILE") (hc : Derives admits .expression xs c) (hd : d.text = "DO")
      (hss : Derives admits .statements ys ss) (he : e.text = "END") :
      Derives admits .statement (w :: (xs ++ d :: (ys ++ [e]))) (.whileLoop c ss)
  | exit {r s : Token} (hr : r.text = "RETURN") (hs : s.text = ";") :
      Derives admits .statement [r, s] (.exit none)
  | exitValue {r s : Token} {xs : List Token} {v : Expression} (hr : r.text = "RETURN")
      (hv : Derives admits .expression xs v) (hs : s.text = ";") :
      Derives admits .statement (r :: (xs ++ [s])) (.exit (some v))
  | assignment {q s : Token} {xs ys : List Token} {target value : Expression}
      (ht : Derives admits .expression xs target) (hq : q.text = "=")
      (hv : Derives admits .expression ys value) (hs : s.text = ";") :
      Derives admits .statement (xs ++ q :: (ys ++ [s])) (.assignment target value)
  | effect {s : Token} {xs : List Token} {e : Expression} (he : Derives admits .expression xs e)
      (hs : s.text = ";") : Derives admits .statement (xs ++ [s]) (.expression e)
  | noElse : Derives admits .elsePart [] []
  | elsePart {k : Token} {xs : List Token} {ss : List Statement} (hk : k.text = "ELSE")
      (hss : Derives admits .statements xs ss) : Derives admits .elsePart (k :: xs) ss
  | noInitializer : Derives admits .initializer [] none
  | initializer {q : Token} {xs : List Token} {e : Expression} (hq : q.text = "=")
      (he : Derives admits .expression xs e) : Derives admits .initializer (q :: xs) (some e)
  | noBinding : Derives admits .binding [] none
  | binding {n q : Token} {xs : List Token} {e : Expression} (hn : IsName admits n)
      (hq : q.text = "=") (he : Derives admits .expression xs e) :
      Derives admits .binding (n :: q :: xs) (some ⟨n.text, e⟩)
  | expression {xs : List Token} {e : Expression} (he : Derives admits (.level 0) xs e) :
      Derives admits .expression xs e
  | operand {k : Nat} {xs : List Token} {e : Expression} (hk : k < 4)
      (he : Derives admits (.level (k + 1)) xs e) : Derives admits (.level k) xs e
  | binary {k : Nat} {t : Token} {xs ys : List Token} {o : Operator} {l r : Expression}
      (hl : Derives admits (.level k) xs l) (ht : t.text = o.symbol) (ho : o.level = k)
      (hr : Derives admits (.level (k + 1)) ys r) :
      Derives admits (.level k) (xs ++ t :: ys) (.binary o l r)
  | secondary {xs : List Token} {e : Expression} (he : Derives admits .secondary xs e) :
      Derives admits (.level 4) xs e
  | primary {xs : List Token} {e : Expression} (he : Derives admits .primary xs e) :
      Derives admits .secondary xs e
  | member {p n : Token} {xs : List Token} {e : Expression} (he : Derives admits .secondary xs e)
      (hp : p.text = ".") (hn : IsName admits n) :
      Derives admits .secondary (xs ++ [p, n]) (.member e n.text)
  | methodCall {p n : Token} {xs ys : List Token} {e : Expression} {es : List Expression}
      (he : Derives admits .secondary xs e) (hp : p.text = ".") (hn : IsName admits n)
      (hes : Derives admits .actuals ys es) :
      Derives admits .secondary (xs ++ p :: n :: ys) (.methodCall e n.text es)
  | constant {t : Token} {v : Literal} (hv : Denotes t v) :
      Derives admits .primary [t] (.literal v)
  | group {o c : Token} {xs : List Token} {e : Expression} (ho : o.text = "(")
      (he : Derives admits .expression xs e) (hc : c.text = ")") :
      Derives admits .primary (o :: (xs ++ [c])) (.group e)
  | name {n : Token} (hn : IsName admits n) : Derives admits .primary [n] (.name n.text)
  | call {n : Token} {xs : List Token} {es : List Expression} (hn : IsName admits n)
      (hes : Derives admits .actuals xs es) : Derives admits .primary (n :: xs) (.call n.text es)
  | noActuals {o c : Token} (ho : o.text = "(") (hc : c.text = ")") :
      Derives admits .actuals [o, c] []
  | actuals {o c : Token} {xs : List Token} {es : List Expression} (ho : o.text = "(")
      (hes : Derives admits .arguments xs es) (hc : c.text = ")") :
      Derives admits .actuals (o :: (xs ++ [c])) es
  | arguments {xs ys : List Token} {e : Expression} {es : List Expression}
      (he : Derives admits .expression xs e) (hes : Derives admits .moreArguments ys es) :
      Derives admits .arguments (xs ++ ys) (e :: es)
  | lastArgument : Derives admits .moreArguments [] []
  | moreArguments {k : Token} {xs ys : List Token} {e : Expression} {es : List Expression}
      (hk : k.text = ",") (he : Derives admits .expression xs e)
      (hes : Derives admits .moreArguments ys es) :
      Derives admits .moreArguments (k :: (xs ++ ys)) (e :: es)

end FrontEnd
