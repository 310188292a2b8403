import FrontEnd.Proofs.Nesting.Scripted

/-!
# The scripts of the grammar

Every rule has a script. What it weighs is how deep the expressions and statements inside its value
are nested, whatever weight the rule starts from.
-/

namespace FrontEnd

lemma Expression.innerAll_eq (as : List Expression) : innerAll as = deepest nesting as := by
  induction as with
  | nil => rfl
  | cons a as ih => rw [innerAll, ih, deepest_cons, nesting]

lemma Statement.innerAll_eq (ss : List Statement) : innerAll ss = deepest nesting ss := by
  induction ss with
  | nil => rfl
  | cons s ss ih => rw [innerAll, ih, deepest_cons, nesting]

def Grammar.Definition.nesting : Grammar.Definition → Nat
  | .field f => optionNesting f.value
  | .method m => Statement.innerAll m.body

/-- The nesting of a program is that of its definitions in source order. -/
lemma nesting_of_definitions (ds : List Grammar.Definition) :
    Program.nesting ⟨ds.filterMap Grammar.Definition.field?,
      ds.filterMap Grammar.Definition.method?⟩ = deepest Grammar.Definition.nesting ds := by
  induction ds with
  | nil => rfl
  | cons d ds ih =>
    rw [deepest_cons, ← ih]
    cases d with
    | field f =>
      simp only [Program.nesting, List.filterMap_cons, Grammar.Definition.field?,
        Grammar.Definition.method?, List.map_cons, List.foldr_cons, Nat.max_assoc]
      rfl
    | method m =>
      simp only [Program.nesting, List.filterMap_cons, Grammar.Definition.field?,
        Grammar.Definition.method?, List.map_cons, List.foldr_cons, Nat.max_left_comm]
      rfl

namespace Scripted

open Rule (tests_ahead tests_aheadOneOf tests_atEnd)

/-- An expression with what is inside it counted, and itself as a level. -/
def expression (start : Nat) :
    Scripted (fun depth => Grammar.expression depth) start fun e => max start e.nesting :=
  call .expression start

def arguments (start : Nat) :
    Scripted (fun depth => Grammar.arguments (Grammar.expression depth)) start
      fun as => max start (Expression.innerAll as) :=
  acceptElse (.text ")") (pure [] (Nat.max_zero start))
    (bind (expression start) fun e =>
      bind (many (fun start => behind (.text ",") (expression start)) _) fun es =>
        expectThen _ _ (pure (e :: es) (by
          rw [Expression.innerAll_eq, deepest_cons, Nat.max_assoc])))

def group (start : Nat) :
    Scripted (fun depth => Grammar.group (Grammar.expression depth)) start
      fun e => max start e.inner :=
  bind (expression start) fun _ => expectThen _ _ (pure _ rfl)

def named (text : String) (start : Nat) :
    Scripted (fun depth => Grammar.named (Grammar.expression depth) text) start
      fun e => max start e.inner :=
  acceptElse (.text "(") (bind (arguments start) fun _ => pure _ rfl)
    (pure _ (Nat.max_zero start))

/-- The first token of an operand decides what it is, so that the script does what the rule does. -/
def operand (start : Nat) :
    Scripted (fun depth => Grammar.operand (Grammar.expression depth)) start
      fun e => max start e.inner where
  script
    | [] => .error (.syntactic .operand) []
    | t :: r =>
      match constant? t with
      | some (.ok value) => .ok (.literal value) r
      | some (.error kind) => .error (.numeral kind) r
      | none =>
        if t.text = "(" then (group start).script r
        else if t.kind = .identifier then (named t.text start).script r
        else .error (.syntactic .operand) (t :: r)
  plays depth ts := by
    cases ts with
    | nil => rfl
    | cons t r =>
      simp only [Grammar.operand]
      cases constant? t with
      | some v => cases v <;> rfl
      | none =>
        dsimp only
        split
        · exact (group start).plays depth r
        · split
          · exact (named t.text start).plays depth r
          · rfl
  weighs ts := by
    cases ts with
    | nil => trivial
    | cons t r =>
      dsimp only
      split
      · exact Nat.max_zero start
      · trivial
      · split
        · exact (group start).weighs r
        · split
          · exact (named t.text start).weighs r
          · trivial
  within ts := by
    cases ts with
    | nil => exact List.suffix_refl []
    | cons t r =>
      dsimp only
      split
      · exact List.suffix_cons t r
      · next kind hc => exact ⟨t, List.suffix_refl _, hc⟩
      · split
        · exact ((group start).within r).mono (List.suffix_cons t r)
        · split
          · exact ((named t.text start).within r).mono (List.suffix_cons t r)
          · exact List.suffix_refl (t :: r)
  alike {ts us} h := by
    cases ts with
    | nil =>
      obtain rfl := h.nil
      exact .error _ h
    | cons t r =>
      obtain ⟨u, r', rfl, hlook, hr⟩ := h.cons
      have hconstant := constant?_congr hlook
      have hnamed : (named t.text start).script = (named u.text start).script := by
        rw [show t.text = u.text from congrArg Prod.snd hlook]
      simp only [Token.look, Prod.mk.injEq] at hlook
      simp only [hconstant, hnamed, hlook.1, hlook.2]
      split
      · exact .ok _ hr
      · exact .error _ hr
      · split
        · exact (group start).alike hr
        · split
          · exact (named u.text start).alike hr
          · exact .error _ h

def memberOf (receiver : Expression) (start : Nat) :
    Scripted (fun depth => Grammar.memberOf (Grammar.expression depth) receiver)
      (max start receiver.inner) fun e => max start e.inner :=
  bind (name _ _) fun _ => acceptElse (.text "(")
    (bind (arguments _) fun _ => pure _ (Nat.max_assoc ..).symm) (pure _ rfl)

def link (receiver : Expression) (start : Nat) :
    Scripted (fun depth => Grammar.link (Grammar.expression depth) receiver)
      (max start receiver.inner)
      fun o => o.elim (max start receiver.inner) fun e => max start e.inner :=
  acceptElse (.text ".") (bind (memberOf receiver start) fun e => pure (some e) rfl)
    (pure none rfl)

def linked (start : Nat) :
    Scripted (fun depth => Grammar.linked (Grammar.expression depth)) start
      fun e => max start e.inner :=
  bind (operand start) fun first =>
    repeatedly (v := fun e => max start e.inner) (fun receiver => link receiver start) first

lemma blind_operatorOf (level : Nat) : (Grammar.operatorOf level).Blind := by
  intro ts us h
  cases ts with
  | nil =>
    obtain rfl := h.nil
    exact .ok none h
  | cons t ts =>
    obtain ⟨u, us, rfl, hlook, hus⟩ := h.cons
    have htext : t.text = u.text := congrArg Prod.snd hlook
    simp only [Grammar.operatorOf, htext]
    split
    · split
      · exact .ok _ hus
      · exact .ok none h
    · exact .ok none h

def operatorOf (level start : Nat) :
    Scripted (fun _ => Grammar.operatorOf level) start fun _ => start :=
  plain (Grammar.leaves_operatorOf level) (blind_operatorOf level) (fun _ => rfl)
    fun {ts _ _} h => by
      obtain ho | ⟨_, _, _, -, ho⟩ := Grammar.operatorOf_cases level ts
      · rw [ho] at h
        cases h
      · rw [ho] at h
        cases h

section Chains

variable {item : Nat → Rule Expression}
  (s : ∀ start, Scripted item start fun e => max start e.inner)

def extend (level : Nat) (left : Expression) (start : Nat) :
    Scripted (fun depth => Grammar.extend level (item depth) left) (max start left.inner)
      fun o => o.elim (max start left.inner) fun e => max start e.inner :=
  bind (operatorOf level _) fun
    | none => pure none rfl
    | some o => bind (s _) fun right =>
      pure (some (Expression.binary o left right)) (Nat.max_assoc ..).symm

def chain (level start : Nat) :
    Scripted (fun depth => Grammar.chain level (item depth)) start
      fun e => max start e.inner :=
  bind (s start) fun first =>
    repeatedly (v := fun e => max start e.inner) (fun left => extend s level left start) first

end Chains

def ladder (start : Nat) :
    Scripted (fun depth => Grammar.expression (depth + 1)) start fun e => max start e.inner :=
  chain (chain (chain (chain linked 3) 2) 1) 0 start

def statement (start : Nat) :
    Scripted (fun depth => Grammar.statement depth) start fun s => max start s.nesting :=
  call .statement start

def blockItem (closing : List String) (cause : SyntaxCause) (start : Nat) :
    Scripted (fun depth => Grammar.blockItem closing cause (Grammar.statement depth)) start
      fun o => o.elim start fun s => max start s.nesting :=
  bind (test (tests_aheadOneOf closing) start) fun _ => ite _ (pure none rfl)
    (bind (test tests_atEnd start) fun _ => ite _ (fail cause)
      (bind (statement start) fun s => pure (some s) rfl))

def block (closing : List String) (cause : SyntaxCause) (start : Nat) :
    Scripted (fun depth => Grammar.block closing cause (Grammar.statement depth)) start
      fun ss => max start (Statement.innerAll ss) :=
  (many (blockItem closing cause) start).reweigh rfl fun ss => by rw [Statement.innerAll_eq]

def body (start : Nat) :
    Scripted (fun depth => Grammar.body (Grammar.statement depth)) start
      fun ss => max start (Statement.innerAll ss) :=
  bind (block _ _ start) fun ss => expectThen _ _ (pure ss rfl)

def initializer (start : Nat) :
    Scripted (fun depth => Grammar.initializer (Grammar.expression depth)) start
      fun o => max start (optionNesting o) :=
  acceptElse (.text "=") (bind (expression start) fun e => pure (some e) rfl)
    (pure none (Nat.max_zero start))

def declaration (start : Nat) :
    Scripted (fun depth => Grammar.declaration (Grammar.expression depth)) start
      fun s => max start s.inner :=
  bind (name _ start) fun _ => bind (initializer start) fun _ => expectThen _ _ (pure _ rfl)

def elsePart (start : Nat) :
    Scripted (fun depth => Grammar.elsePart (Grammar.statement depth)) start
      fun ss => max start (Statement.innerAll ss) :=
  acceptElse (.text "ELSE") (block _ _ start) (pure [] (Nat.max_zero start))

def branch (start : Nat) :
    Scripted (fun depth => Grammar.branch (Grammar.expression depth) (Grammar.statement depth))
      start fun s => max start s.inner :=
  bind (expression start) fun _ => expectThen _ _ (bind (block _ _ _) fun _ =>
    bind (elsePart _) fun _ => expectThen _ _ (pure _ (by
      simp only [Statement.inner, Nat.max_assoc])))

def whileLoop (start : Nat) :
    Scripted (fun depth => Grammar.whileLoop (Grammar.expression depth) (Grammar.statement depth))
      start fun s => max start s.inner :=
  bind (expression start) fun _ => expectThen _ _ (bind (body _) fun _ =>
    pure _ (Nat.max_assoc ..).symm)

def exitValue (start : Nat) :
    Scripted (fun depth => Grammar.exitValue (Grammar.expression depth)) start
      fun o => max start (optionNesting o) :=
  bind (test (tests_ahead (.text ";")) start) fun _ => ite _ (pure none (Nat.max_zero start))
    (bind (expression start) fun e => pure (some e) rfl)

def exit (start : Nat) :
    Scripted (fun depth => Grammar.exit (Grammar.expression depth)) start
      fun s => max start s.inner :=
  bind (exitValue start) fun _ => expectThen _ _ (pure _ rfl)

def effectOf (target : Expression) (start : Nat) :
    Scripted (fun depth => Grammar.effectOf (Grammar.expression depth) target)
      (max start target.nesting) fun s => max start s.inner :=
  acceptElse (.text "=")
    (bind (expression _) fun _ => expectThen _ _ (pure _ (Nat.max_assoc ..).symm))
    (expectThen _ _ (pure _ rfl))

def effect (start : Nat) :
    Scripted (fun depth => Grammar.effect (Grammar.expression depth)) start
      fun s => max start s.inner :=
  bind (expression start) fun target => effectOf target start

/-- The value of a binding behind its name and the equals sign. -/
def boundValue (text : String) (start : Nat) :
    Scripted (fun depth => (do
      let value ← Grammar.expression depth
      return some (Binding.mk text value) : Rule (Option Binding))) start
      fun o => max start (bindingNesting o) :=
  bind (expression start) fun value => pure (some (Binding.mk text value)) rfl

lemma startsAs_congr {ts us : List Token} (h : Alike ts us) (ps : List Pattern) :
    startsAs ps ts = startsAs ps us := by
  induction ps generalizing ts us with
  | nil => rfl
  | cons p ps ih =>
    cases ts with
    | nil =>
      obtain rfl := h.nil
      rfl
    | cons t ts =>
      obtain ⟨u, us, rfl, hlook, hus⟩ := h.cons
      rw [startsAs, startsAs, p.accepts_congr hlook, ih hus]

/-- A binding is told by two tokens, so that it does not go on from the first one. -/
def binding (start : Nat) :
    Scripted (fun depth => Grammar.binding (Grammar.expression depth)) start
      fun o => max start (bindingNesting o) where
  script
    | n :: q :: r =>
      if startsAs [.kind .identifier, .text "="] (n :: q :: r) then
        (boundValue n.text start).script r
      else .ok none (n :: q :: r)
    | ts => .ok none ts
  plays depth ts := by
    match ts with
    | [] => rfl
    | [_] => rfl
    | n :: q :: r =>
      dsimp only [Grammar.binding]
      split
      · exact (boundValue n.text start).plays depth r
      · rfl
  weighs ts := by
    split
    · split
      · exact (boundValue _ start).weighs _
      · exact Nat.max_zero start
    · exact Nat.max_zero start
  within ts := by
    split
    · split
      · exact ((boundValue _ start).within _).mono
          ((List.suffix_cons _ _).trans (List.suffix_cons _ _))
      · exact List.suffix_refl _
    · exact List.suffix_refl _
  alike {ts us} h := by
    match ts, h with
    | [], h =>
      obtain rfl := h.nil
      exact .ok none h
    | [n], h =>
      obtain ⟨n', us, rfl, hn, hus⟩ := h.cons
      obtain rfl := hus.nil
      exact .ok none h
    | n :: q :: r, h =>
      have hstarts := startsAs_congr h [.kind .identifier, .text "="]
      obtain ⟨n', us, rfl, hn, hus⟩ := h.cons
      obtain ⟨q', r', rfl, hq, hr⟩ := hus.cons
      have htext : n.text = n'.text := congrArg Prod.snd hn
      have hvalue : (boundValue n.text start).script = (boundValue n'.text start).script := by
        rw [htext]
      simp only [hstarts, hvalue]
      split
      · exact (boundValue n'.text start).alike hr
      · exact .ok none h

def forLoop (start : Nat) :
    Scripted (fun depth => Grammar.forLoop (Grammar.expression depth) (Grammar.statement depth))
      start fun s => max start s.inner :=
  expectThen _ _ (bind (binding start) fun _ => expectThen _ _ (bind (expression _) fun _ =>
    expectThen _ _ (bind (binding _) fun _ => expectThen _ _ (bind (body _) fun _ =>
      pure _ (by simp only [Statement.inner, Nat.max_assoc])))))

def anyStatement (start : Nat) :
    Scripted (fun depth => Grammar.statement (depth + 1)) start fun s => max start s.inner :=
  acceptElse (.text "LET") (declaration start) (acceptElse (.text "IF") (branch start)
    (acceptElse (.text "FOR") (forLoop start) (acceptElse (.text "WHILE") (whileLoop start)
      (acceptElse (.text "RETURN") (exit start) (effect start)))))

def fieldRest (start : Nat) :
    Scripted (fun depth => Grammar.fieldRest depth) start
      fun f => max start (optionNesting f.value) :=
  bind (accept (.text "CONST") start) fun _ => bind (name _ start) fun _ =>
    bind (initializer start) fun _ => expectThen _ _ (pure _ rfl)

def field (start : Nat) :
    Scripted (fun depth => Grammar.field depth) start fun f => max start (optionNesting f.value) :=
  expectThen _ _ (fieldRest start)

lemma deepest_zero {α : Type} (as : List α) : deepest (fun _ => 0) as = 0 := by
  induction as with
  | nil => rfl
  | cons a as ih => rw [deepest_cons, ih, Nat.max_self]

/-- Names behind commas, which weigh nothing. -/
def moreNames (cause : SyntaxCause) (start : Nat) :
    Scripted (fun _ => Rule.many (Rule.behind (.text ",") (Rule.name cause))) start
      fun _ => start :=
  (many (v := fun _ => 0) (fun start => (behind (.text ",") (name cause start)).reweigh rfl fun o =>
    by cases o <;> simp) start).reweigh rfl fun names => by rw [deepest_zero, Nat.max_zero]

def parameters (start : Nat) : Scripted (fun _ => Grammar.parameters) start fun _ => start :=
  bind (test (tests_ahead (.kind .identifier)) start) fun _ => ite _
    (bind (name _ start) fun first => bind (moreNames _ start) fun others =>
      pure (first :: others) rfl) (pure [] rfl)

def methodRest (start : Nat) :
    Scripted (fun depth => Grammar.methodRest depth) start
      fun m => max start (Statement.innerAll m.body) :=
  bind (name _ start) fun _ => expectThen _ _ (bind (parameters start) fun _ =>
    expectThen _ _ (expectThen _ _ (bind (body start) fun _ => pure _ rfl)))

def method (start : Nat) :
    Scripted (fun depth => Grammar.method depth) start
      fun m => max start (Statement.innerAll m.body) :=
  expectThen _ _ (methodRest start)

def definition (start : Nat) :
    Scripted (fun depth => Grammar.definition depth) start
      fun o => o.elim start fun d => max start d.nesting :=
  bind (test tests_atEnd start) fun _ => ite _ (pure none rfl)
    (bind (test (tests_ahead (.text "LET")) start) fun _ => ite _
      (bind (field start) fun f => pure (some (Grammar.Definition.field f)) rfl)
      (bind (test (tests_ahead (.text "DEF")) start) fun _ => ite _
        (bind (method start) fun m => pure (some (Grammar.Definition.method m)) rfl) (fail _)))

def program : Scripted (fun depth => Grammar.program depth) 0 Program.nesting :=
  bind (many definition 0) fun ds => pure _ (by rw [nesting_of_definitions, Nat.zero_max])

/-- What is inside a construct of either kind. -/
def inside (n : Nest) : Scripted (fun depth => n.rule (depth + 1)) 0 n.inner :=
  match n with
  | .expression => (ladder 0).reweigh rfl fun e => Nat.zero_max e.inner
  | .statement => (anyStatement 0).reweigh rfl fun s => Nat.zero_max s.inner

end Scripted

end FrontEnd
