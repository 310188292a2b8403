import FrontEnd.Proofs.Grammar.Runs
import FrontEnd.Proofs.Syntax.Nesting

/-!
# Completeness of the rules

With the keywords reserved and enough depth, the rule of a nonterminal reads just the tokens that
are derived from it, as the tree of the derivation, whatever follows them that cannot be part of
the same construct.
-/

namespace FrontEnd.Grammar

open Rule

/-- What the rule of a nonterminal does with tokens derived from it, in front of all that may follow
them and with all the depth that the tree needs. -/
def Recognizes : (n : Nonterminal) → List Token → n.Tree → Prop
  | .source, xs, p => ∀ d, p.nesting ≤ d → ∃ ds, many (definition d) xs = .ok ds [] ∧
    ds.filterMap Definition.field? = p.fields ∧ ds.filterMap Definition.method? = p.methods
  | .field, xs, f => ∃ l ys, xs = l :: ys ∧ l.text = "LET" ∧
    ∀ d, optionNesting f.value ≤ d → ∀ U, fieldRest d (ys ++ U) = .ok f U
  | .method, xs, m => ∃ l ys, xs = l :: ys ∧ l.text = "DEF" ∧
    ∀ d, Statement.innerAll m.body ≤ d → ∀ U, methodRest d (ys ++ U) = .ok m U
  | .names, xs, ps => ∀ c : Token, c.text = ")" → c.Genuine → ∀ U,
    parameters (xs ++ c :: U) = .ok ps (c :: U)
  | .moreNames, xs, ps => ∀ c : Token, c.text = ")" → ∀ U,
    many (behind (.text ",") (name .parameterName)) (xs ++ c :: U) = .ok ps (c :: U)
  | .statements, xs, ss => ∀ d, Statement.innerAll ss ≤ d → ∀ closing cause,
    closing ⊆ ["ELSE", "END"] → ∀ k : Token, k.text ∈ closing → ∀ U,
      block closing cause (Grammar.statement d) (xs ++ k :: U) = .ok ss (k :: U)
  | .statement, xs, s => ∀ d, s.inner ≤ d → ∀ U,
    anyStatement (Grammar.expression d) (Grammar.statement d) (xs ++ U) = .ok s U
  | .elsePart, xs, ss => ∀ d, Statement.innerAll ss ≤ d → ∀ k : Token, k.text = "END" → ∀ U,
    (∃ t V, xs ++ k :: U = t :: V ∧ t.text ∈ ["ELSE", "END"]) ∧
      elsePart (Grammar.statement d) (xs ++ k :: U) = .ok ss (k :: U)
  | .initializer, xs, v => ∀ d, optionNesting v ≤ d → ∀ c : Token, c.text = ";" → ∀ U,
    initializer (Grammar.expression d) (xs ++ c :: U) = .ok v (c :: U)
  | .binding, xs, b => ∀ d, bindingNesting b ≤ d → ∀ c : Token, c.text ∈ [")", ";"] →
    c.Genuine → ∀ U, binding (Grammar.expression d) (xs ++ c :: U) = .ok b (c :: U)
  | .expression, xs, e => ∀ d, e.nesting ≤ d → ∀ U, Stops 0 U →
    Grammar.expression d (xs ++ U) = .ok e U
  | .level k, xs, e => k ≤ 4 → ∀ d, e.inner ≤ d → ReadsOpen (Grammar.expression d) k xs e
  | .secondary, xs, e => ∀ d, e.inner ≤ d → ∀ U, Stops 5 U →
    linked (Grammar.expression d) (xs ++ U) = repeatedly (link (Grammar.expression d)) e U
  | .primary, xs, e => ∀ d, e.inner ≤ d → ∀ U, Stops 5 U →
    operand (Grammar.expression d) (xs ++ U) = .ok e U
  | .actuals, xs, es => ∃ o ys, xs = o :: ys ∧ o.text = "(" ∧
    ∀ d, Expression.innerAll es ≤ d → ∀ U, arguments (Grammar.expression d) (ys ++ U) = .ok es U
  | .arguments, xs, es => ∀ d, Expression.innerAll es ≤ d → ∀ c : Token, c.text = ")" → ∀ U,
    ∃ e es' middle, es = e :: es' ∧ Grammar.expression d (xs ++ c :: U) = .ok e middle ∧
      many (behind (.text ",") (Grammar.expression d)) middle = .ok es' (c :: U)
  | .moreArguments, xs, es => ∀ d, Expression.innerAll es ≤ d → ∀ c : Token, c.text = ")" → ∀ U,
    Stops 0 (xs ++ c :: U) ∧
      many (behind (.text ",") (Grammar.expression d)) (xs ++ c :: U) = .ok es (c :: U)

/-- Tokens that the lexer could have made and that can be read if they are numerals. -/
def Sound (xs : List Token) : Prop := ∀ t ∈ xs, t.Usable

@[simp] lemma sound_nil : Sound [] := List.forall_mem_nil _

@[simp] lemma sound_append {xs ys : List Token} : Sound (xs ++ ys) ↔ Sound xs ∧ Sound ys :=
  List.forall_mem_append

@[simp] lemma sound_cons {t : Token} {xs : List Token} : Sound (t :: xs) ↔ t.Usable ∧ Sound xs :=
  List.forall_mem_cons

/-! ### Expressions -/

lemma recognizes_level_of_operand {k : Nat} (hk : k < 4) {xs : List Token} {a : Expression}
    (h : Recognizes (.level (k + 1)) xs a) : Recognizes (.level k) xs a := by
  intro _ d hd
  exact (h (by omega) d hd).lower (leaves_expression d) (Nat.le_succ k) (by omega)

lemma recognizes_binary {t : Token} {xs ys : List Token} {o : Operator} {l r : Expression}
    (hl : Recognizes (.level o.level) xs l) (ht : t.text = o.symbol)
    (hr : Recognizes (.level (o.level + 1)) ys r) :
    Recognizes (.level o.level) (xs ++ t :: ys) (.binary o l r) := by
  intro hk d hd
  have hlevel := o.level_lt
  have hleaves := leaves_expression d
  have hinner : l.inner ≤ d ∧ r.inner ≤ d := by
    simpa only [Expression.inner, Nat.max_le] using hd
  have hright := (hr (by omega) d hinner.2).closed hleaves (by omega)
  exact (hl hk d hinner.1).binary hleaves ht hright

lemma recognizes_member {p n : Token} {xs : List Token} {a : Expression}
    (h : Recognizes .secondary xs a) (hp : p.text = ".") (hn : n.kind = .identifier) :
    Recognizes .secondary (xs ++ [p, n]) (.member a n.text) := by
  intro d hd U hU
  have hlink := link_of_member (e := Grammar.expression d) hp hn (fun t ht => (hU t ht).1) a
  rw [List.append_assoc, List.cons_append, List.cons_append, List.nil_append,
    h d hd _ (stops_point hp _)]
  exact repeatedly_of_some (finds_link (leaves_expression d)) hlink

lemma recognizes_methodCall {p n : Token} {xs ys : List Token} {a : Expression}
    {es : List Expression} (h : Recognizes .secondary xs a) (hp : p.text = ".")
    (hn : n.kind = .identifier) (hes : Recognizes .actuals ys es) :
    Recognizes .secondary (xs ++ p :: n :: ys) (.methodCall a n.text es) := by
  intro d hd U hU
  have hinner : a.inner ≤ d ∧ Expression.innerAll es ≤ d := by
    simpa only [Expression.inner, Nat.max_le] using hd
  obtain ⟨o, zs, rfl, ho, hargs⟩ := hes
  have hlink := link_of_methodCall hp hn ho (hargs d hinner.2 U) a
  rw [List.append_assoc, List.cons_append, List.cons_append, List.cons_append,
    h d hinner.1 _ (stops_point hp _)]
  exact repeatedly_of_some (finds_link (leaves_expression d)) hlink

lemma recognizes_secondary_of_primary {xs : List Token} {a : Expression}
    (h : Recognizes .primary xs a) : Recognizes .secondary xs a := by
  intro d hd U hU
  exact bind_of_ok (h d hd U hU) _

lemma recognizes_expression {xs : List Token} {a : Expression} (h : Recognizes (.level 0) xs a) :
    Recognizes .expression xs a := by
  intro d hd U hU
  cases d with
  | zero => simp [Expression.nesting] at hd
  | succ d =>
    have hinner : a.inner ≤ d := by simpa [Expression.nesting] using hd
    exact (h (by omega) d hinner).closed (leaves_expression d) (by omega) U hU

lemma recognizes_group {o c : Token} {xs : List Token} {a : Expression} (hg : o.Genuine)
    (ho : o.text = "(") (h : Recognizes .expression xs a) (hc : c.text = ")") :
    Recognizes .primary (o :: (xs ++ [c])) (.group a) := by
  intro d hd U _
  have hcontent := h d hd (c :: U) (stops_closing hc (by decide) U)
  rw [List.cons_append, List.append_assoc, operand_of_group hg ho]
  exact group_of hcontent hc

lemma recognizes_name {n : Token} (hg : n.Genuine) (hn : IsName (· ∉ keywords) n) :
    Recognizes .primary [n] (.name n.text) := by
  intro d _ U hU
  rw [List.singleton_append, operand_of_name hg hn]
  exact named_of_not (fun t ht => (hU t ht).1) _

lemma recognizes_call {n : Token} {xs : List Token} {es : List Expression} (hg : n.Genuine)
    (hn : IsName (· ∉ keywords) n) (hes : Recognizes .actuals xs es) :
    Recognizes .primary (n :: xs) (.call n.text es) := by
  intro d hd U _
  obtain ⟨o, ys, rfl, ho, hargs⟩ := hes
  rw [List.cons_append, operand_of_name hg hn]
  exact named_of_call ho (hargs d hd U) _

lemma recognizes_arguments {xs ys : List Token} {a : Expression} {es : List Expression}
    (h : Recognizes .expression xs a) (hes : Recognizes .moreArguments ys es) :
    Recognizes .arguments (xs ++ ys) (a :: es) := by
  intro d hd c hc U
  have hinner : a.nesting ≤ d ∧ Expression.innerAll es ≤ d := by
    simpa only [Expression.innerAll, Nat.max_le, ← Expression.nesting.eq_1] using hd
  obtain ⟨hstops, hmany⟩ := hes d hinner.2 c hc U
  refine ⟨a, es, ys ++ c :: U, rfl, ?_, hmany⟩
  rw [List.append_assoc]
  exact h d hinner.1 _ hstops

lemma recognizes_moreArguments {k : Token} {xs ys : List Token} {a : Expression}
    {es : List Expression} (hk : k.text = ",") (h : Recognizes .expression xs a)
    (hes : Recognizes .moreArguments ys es) :
    Recognizes .moreArguments (k :: (xs ++ ys)) (a :: es) := by
  intro d hd c hc U
  have hinner : a.nesting ≤ d ∧ Expression.innerAll es ≤ d := by
    simpa only [Expression.innerAll, Nat.max_le, ← Expression.nesting.eq_1] using hd
  obtain ⟨hstops, hmany⟩ := hes d hinner.2 c hc U
  have hitem := behind_of (accepts_text_of hk) (h d hinner.1 _ hstops)
  rw [List.cons_append, List.append_assoc]
  exact ⟨stops_closing hk (by decide) _,
    many_of_some (finds_behind _ (leaves_expression d)) hitem hmany⟩

lemma recognizes_lastArgument : Recognizes .moreArguments [] [] := by
  intro d _ c hc U
  have hitem : behind (.text ",") (Grammar.expression d) (c :: U) = .ok none (c :: U) :=
    behind_of_not _ fun t ht => by cases ht; exact not_accepts_text_of (by simp [hc])
  exact ⟨stops_closing hc (by decide) U,
    many_of_none (finds_behind _ (leaves_expression d)) hitem⟩

lemma recognizes_actuals {o c : Token} {xs : List Token} {es : List Expression} (ho : o.text = "(")
    (h : Recognizes .arguments xs es) (hbegins : ∃ t ys, xs = t :: ys ∧ t.text ≠ ")")
    (hc : c.text = ")") : Recognizes .actuals (o :: (xs ++ [c])) es := by
  obtain ⟨t, ys, rfl, ht⟩ := hbegins
  refine ⟨o, _, rfl, ho, fun d hd U => ?_⟩
  obtain ⟨a, es, middle, rfl, ha, hmany⟩ := h d hd c hc U
  rw [List.append_assoc, List.singleton_append]
  exact arguments_of_some ht ha hmany hc

/-! ### Statements -/

lemma recognizes_statements {xs ys : List Token} {s : Statement} {ss : List Statement}
    (hs : Recognizes .statement xs s) (hss : Recognizes .statements ys ss)
    (hbegins : ∃ t zs, xs = t :: zs ∧ t.text ∉ ["ELSE", "END"]) :
    Recognizes .statements (xs ++ ys) (s :: ss) := by
  intro d hd closing cause hclosing k hk U
  have hinner : s.inner + 1 ≤ d ∧ Statement.innerAll ss ≤ d := by
    simpa only [Statement.innerAll, Nat.max_le] using hd
  obtain ⟨d, rfl⟩ : ∃ n, d = n + 1 := ⟨d - 1, by omega⟩
  obtain ⟨t, zs, rfl, ht⟩ := hbegins
  have hitem := blockItem_of_statement (fun h => ht (hclosing h))
    (hs d (by omega) (ys ++ k :: U)) cause
  rw [List.append_assoc]
  exact many_of_some (finds_blockItem closing cause (reads_statement (d + 1))) hitem
    (hss (d + 1) hinner.2 closing cause hclosing k hk U)

lemma recognizes_noStatement : Recognizes .statements [] [] := by
  intro d _ closing cause _ k hk U
  exact many_of_none (finds_blockItem closing cause (reads_statement d))
    (blockItem_of_closing hk cause U)

lemma body_of_recognizes {xs : List Token} {ss : List Statement} (h : Recognizes .statements xs ss)
    {d : Nat} (hd : Statement.innerAll ss ≤ d) {k : Token} (hk : k.text = "END") (U : List Token) :
    body (Grammar.statement d) (xs ++ k :: U) = .ok ss U :=
  body_of hk (h d hd ["END"] .blockEnd (by simp) k (by simp [hk]) U)

lemma recognizes_initializer {q : Token} {xs : List Token} {a : Expression} (hq : q.text = "=")
    (h : Recognizes .expression xs a) : Recognizes .initializer (q :: xs) (some a) := by
  intro d hd c hc U
  exact initializer_of hq (h d hd _ (stops_closing hc (by decide) U))

lemma recognizes_noInitializer : Recognizes .initializer [] none := by
  intro d _ c hc U
  exact initializer_of_not fun t ht => by cases ht; simp [hc]

lemma recognizes_binding {n q : Token} {xs : List Token} {a : Expression}
    (hn : n.kind = .identifier) (hq : q.text = "=") (h : Recognizes .expression xs a) :
    Recognizes .binding (n :: q :: xs) (some ⟨n.text, a⟩) := by
  intro d hd c hc _ U
  have hclosers : ∀ s ∈ [")", ";"], s ∈ closers := by decide
  exact binding_of hn hq (h d hd _ (stops_closing rfl (hclosers _ hc) U))

lemma recognizes_noBinding : Recognizes .binding [] none := by
  intro d _ c hc hg U
  have hmarks : ∀ s ∈ [")", ";"], s ∈ marks := by decide
  have hk := hg.kind_of_mark (hmarks _ hc)
  exact binding_of_not fun t ht => by cases ht; simp [hk]

lemma recognizes_declaration {l n c : Token} {xs : List Token} {v : Option Expression}
    (hl : l.text = "LET") (hn : n.kind = .identifier) (hv : Recognizes .initializer xs v)
    (hc : c.text = ";") :
    Recognizes .statement (l :: n :: (xs ++ [c])) (.declaration n.text v) := by
  intro d hd U
  have hrun := declaration_of hn (hv d hd c hc U) hc
  simp only [List.cons_append, List.append_assoc, List.nil_append, anyStatement_cons, hl, if_true]
  exact hrun

lemma recognizes_elsePart {k : Token} {xs : List Token} {ss : List Statement}
    (hk : k.text = "ELSE") (h : Recognizes .statements xs ss) :
    Recognizes .elsePart (k :: xs) ss := by
  intro d hd t ht U
  exact ⟨⟨k, xs ++ t :: U, rfl, by simp [hk]⟩,
    elsePart_of hk (h d hd ["END"] .blockEnd (by simp) t (by simp [ht]) U)⟩

lemma recognizes_noElse : Recognizes .elsePart [] [] := by
  intro d _ t ht U
  exact ⟨⟨t, U, rfl, by simp [ht]⟩, elsePart_of_not fun u hu => by cases hu; simp [ht]⟩

lemma recognizes_branch {i k t : Token} {xs ys zs : List Token} {c : Expression}
    {yes no : List Statement} (hi : i.text = "IF") (hc : Recognizes .expression xs c)
    (hk : k.text = "DO") (hyes : Recognizes .statements ys yes) (hno : Recognizes .elsePart zs no)
    (ht : t.text = "END") :
    Recognizes .statement (i :: (xs ++ k :: (ys ++ (zs ++ [t])))) (.branch c yes no) := by
  intro d hd U
  have hinner : c.nesting ≤ d ∧ Statement.innerAll yes ≤ d ∧ Statement.innerAll no ≤ d := by
    simpa only [Statement.inner, Nat.max_le] using hd
  obtain ⟨⟨u, V, hzs, hu⟩, hsecond⟩ := hno d hinner.2.2 t ht U
  have hfirst := hyes d hinner.2.1 ["ELSE", "END"] .branchEnd (by simp) u hu V
  have hcondition := hc d hinner.1 (k :: (ys ++ (zs ++ t :: U)))
    (stops_closing hk (by decide) _)
  rw [← hzs] at hfirst
  have hrun := branch_of hcondition hk hfirst hsecond ht
  simp only [List.cons_append, List.append_assoc, List.nil_append]
  rw [anyStatement_cons]
  simpa [hi] using hrun

lemma recognizes_forLoop {f o t t' c k : Token} {xs ys zs ws : List Token} {i j : Option Binding}
    {condition : Expression} {ss : List Statement} (hf : f.text = "FOR") (ho : o.text = "(")
    (hi : Recognizes .binding xs i) (ht : t.text = ";") (hgt : t.Genuine)
    (hcondition : Recognizes .expression ys condition) (ht' : t'.text = ";")
    (hj : Recognizes .binding zs j) (hc : c.text = ")") (hgc : c.Genuine)
    (hss : Recognizes .statements ws ss) (hk : k.text = "END") :
    Recognizes .statement
      (f :: o :: (xs ++ t :: (ys ++ t' :: (zs ++ c :: (ws ++ [k])))))
      (.forLoop i condition j ss) := by
  intro d hd U
  have hinner : bindingNesting i ≤ d ∧ condition.nesting ≤ d ∧ bindingNesting j ≤ d ∧
      Statement.innerAll ss ≤ d := by
    simpa only [Statement.inner, Nat.max_le] using hd
  have hinitialization := hi d hinner.1 t (by simp [ht]) hgt
    (ys ++ t' :: (zs ++ c :: (ws ++ k :: U)))
  have htest := hcondition d hinner.2.1 (t' :: (zs ++ c :: (ws ++ k :: U)))
    (stops_closing ht' (by decide) _)
  have hincrement := hj d hinner.2.2.1 c (by simp [hc]) hgc (ws ++ k :: U)
  have hrun := forLoop_of ho hinitialization ht htest ht' hincrement hc
    (body_of_recognizes hss hinner.2.2.2 hk U)
  simp only [List.cons_append, List.append_assoc, List.nil_append]
  rw [anyStatement_cons]
  simpa [hf] using hrun

lemma recognizes_whileLoop {w k t : Token} {xs ys : List Token} {c : Expression}
    {ss : List Statement} (hw : w.text = "WHILE") (hc : Recognizes .expression xs c)
    (hk : k.text = "DO") (hss : Recognizes .statements ys ss) (ht : t.text = "END") :
    Recognizes .statement (w :: (xs ++ k :: (ys ++ [t]))) (.whileLoop c ss) := by
  intro d hd U
  have hinner : c.nesting ≤ d ∧ Statement.innerAll ss ≤ d := by
    simpa only [Statement.inner, Nat.max_le] using hd
  have hcondition := hc d hinner.1 (k :: (ys ++ t :: U)) (stops_closing hk (by decide) _)
  have hrun := whileLoop_of hcondition hk (body_of_recognizes hss hinner.2 ht U)
  simp only [List.cons_append, List.append_assoc, List.nil_append]
  rw [anyStatement_cons]
  simpa [hw] using hrun

lemma recognizes_exit {r c : Token} (hr : r.text = "RETURN") (hc : c.text = ";") :
    Recognizes .statement [r, c] (.exit none) := by
  intro d _ U
  have hrun := exit_of_none (e := Grammar.expression d) hc U
  simp only [List.cons_append, List.nil_append]
  rw [anyStatement_cons]
  simpa [hr] using hrun

lemma recognizes_exitValue {r c : Token} {xs : List Token} {a : Expression}
    (hr : r.text = "RETURN") (h : Recognizes .expression xs a)
    (hbegins : ∃ t ys, xs = t :: ys ∧ t.text ≠ ";") (hc : c.text = ";") :
    Recognizes .statement (r :: (xs ++ [c])) (.exit (some a)) := by
  intro d hd U
  obtain ⟨t, ys, rfl, ht⟩ := hbegins
  have hvalue := h d hd (c :: U) (stops_closing hc (by decide) U)
  have hrun := exit_of_some ht hvalue hc
  simp only [List.cons_append, List.append_assoc, List.nil_append]
  rw [anyStatement_cons]
  simpa [hr] using hrun

lemma anyStatement_of_effect {e : Rule Expression} {s : Rule Statement} {t : Token}
    (ht : t.text ∉ statementWords) (ts : List Token) :
    anyStatement e s (t :: ts) = effect e (t :: ts) := by
  simp only [statementWords, List.mem_cons, List.not_mem_nil, or_false, not_or] at ht
  rw [anyStatement_cons]
  simp [ht]

lemma recognizes_assignment {q c : Token} {xs ys : List Token} {target value : Expression}
    (ht : Recognizes .expression xs target)
    (hbegins : ∃ t ys, xs = t :: ys ∧ t.text ∉ statementWords)
    (hq : q.text = "=") (hv : Recognizes .expression ys value) (hc : c.text = ";") :
    Recognizes .statement (xs ++ q :: (ys ++ [c])) (.assignment target value) := by
  intro d hd U
  have hinner : target.nesting ≤ d ∧ value.nesting ≤ d := by
    simpa only [Statement.inner, Nat.max_le] using hd
  obtain ⟨t, zs, rfl, hword⟩ := hbegins
  have htarget := ht d hinner.1 (q :: (ys ++ c :: U)) (stops_closing hq (by decide) _)
  have hvalue := hv d hinner.2 (c :: U) (stops_closing hc (by decide) U)
  simp only [List.cons_append, List.append_assoc, List.nil_append]
  rw [anyStatement_of_effect hword]
  exact effect_of_assignment htarget hq hvalue hc

lemma recognizes_effect {c : Token} {xs : List Token} {a : Expression}
    (h : Recognizes .expression xs a) (hbegins : ∃ t ys, xs = t :: ys ∧ t.text ∉ statementWords)
    (hc : c.text = ";") : Recognizes .statement (xs ++ [c]) (.expression a) := by
  intro d hd U
  obtain ⟨t, zs, rfl, hword⟩ := hbegins
  have hvalue := h d hd (c :: U) (stops_closing hc (by decide) U)
  simp only [List.cons_append, List.append_assoc, List.nil_append]
  rw [anyStatement_of_effect hword]
  exact effect_of_expression hvalue hc

/-! ### Programs -/

lemma recognizes_names {n : Token} {xs : List Token} {ps : List String}
    (hn : n.kind = .identifier) (h : Recognizes .moreNames xs ps) :
    Recognizes .names (n :: xs) (n.text :: ps) := by
  intro c hc _ U
  exact parameters_of hn (h c hc U)

lemma recognizes_noName : Recognizes .names [] [] := by
  intro c hc hg U
  have hk := hg.kind_of_mark (by simp [hc, marks])
  exact parameters_of_not fun t ht => by cases ht; simp [hk]

lemma recognizes_moreNames {k n : Token} {xs : List Token} {ps : List String} (hk : k.text = ",")
    (hn : n.kind = .identifier) (h : Recognizes .moreNames xs ps) :
    Recognizes .moreNames (k :: n :: xs) (n.text :: ps) := by
  intro c hc U
  exact many_of_some (finds_behind _ (leaves_name _))
    (behind_of (accepts_text_of hk) (name_of hn _ _)) (h c hc U)

lemma recognizes_lastName : Recognizes .moreNames [] [] := by
  intro c hc U
  refine many_of_none (finds_behind _ (leaves_name _)) (behind_of_not _ fun t ht => ?_)
  cases ht
  exact not_accepts_text_of (by simp [hc])

lemma recognizes_field {l n c : Token} {xs : List Token} {v : Option Expression}
    (hl : l.text = "LET") (hn : IsName (· ∉ keywords) n) (hv : Recognizes .initializer xs v)
    (hc : c.text = ";") : Recognizes .field (l :: n :: (xs ++ [c])) ⟨n.text, false, v⟩ := by
  refine ⟨l, _, rfl, hl, fun d hd U => ?_⟩
  have hword : n.text ≠ "CONST" := fun h => hn.2 (by simp [h, keywords])
  simp only [List.cons_append, List.append_assoc, List.nil_append]
  exact fieldRest_of hn.1 hword (hv d hd c hc U) hc

lemma recognizes_constantField {l k n c : Token} {xs : List Token} {v : Option Expression}
    (hl : l.text = "LET") (hk : k.text = "CONST") (hn : n.kind = .identifier)
    (hv : Recognizes .initializer xs v) (hc : c.text = ";") :
    Recognizes .field (l :: k :: n :: (xs ++ [c])) ⟨n.text, true, v⟩ := by
  refine ⟨l, _, rfl, hl, fun d hd U => ?_⟩
  simp only [List.cons_append, List.append_assoc, List.nil_append]
  exact fieldRest_of_constant hk hn (hv d hd c hc U) hc

lemma recognizes_method {f n o c w k : Token} {xs ys : List Token} {ps : List String}
    {ss : List Statement} (hf : f.text = "DEF") (hn : n.kind = .identifier) (ho : o.text = "(")
    (hps : Recognizes .names xs ps) (hc : c.text = ")") (hg : c.Genuine) (hw : w.text = "DO")
    (hss : Recognizes .statements ys ss) (hk : k.text = "END") :
    Recognizes .method (f :: n :: o :: (xs ++ c :: w :: (ys ++ [k]))) ⟨n.text, ps, ss⟩ := by
  refine ⟨f, _, rfl, hf, fun d hd U => ?_⟩
  simp only [List.cons_append, List.append_assoc, List.nil_append]
  exact methodRest_of hn ho (hps c hc hg _) hc hw (body_of_recognizes hss hd hk U)

lemma recognizes_sourceField {xs ys : List Token} {f : Field} {p : Program}
    (hf : Recognizes .field xs f) (hp : Recognizes .source ys p) :
    Recognizes .source (xs ++ ys) ⟨f :: p.fields, p.methods⟩ := by
  intro d hd
  have hinner : optionNesting f.value ≤ d ∧ p.nesting ≤ d := by
    simp only [Program.nesting, List.map_cons, List.foldr_cons, Nat.max_le] at hd ⊢
    exact ⟨hd.1.1, hd.1.2, hd.2⟩
  obtain ⟨l, zs, rfl, hl, hrest⟩ := hf
  obtain ⟨ds, hmany, hfields, hmethods⟩ := hp d hinner.2
  have hfield : field d (l :: (zs ++ ys)) = .ok f ys :=
    (bind_of_ok (expect_of (accepts_text_of hl) _ _) _).trans (hrest d hinner.1 ys)
  refine ⟨.field f :: ds, many_of_some (finds_definition d) (definition_of_field hl hfield) hmany,
    ?_, ?_⟩
  · simp [Definition.field?, hfields]
  · exact hmethods

lemma recognizes_sourceMethod {xs ys : List Token} {m : Method} {p : Program}
    (hm : Recognizes .method xs m) (hp : Recognizes .source ys p) :
    Recognizes .source (xs ++ ys) ⟨p.fields, m :: p.methods⟩ := by
  intro d hd
  have hinner : Statement.innerAll m.body ≤ d ∧ p.nesting ≤ d := by
    simp only [Program.nesting, List.map_cons, List.foldr_cons, Nat.max_le] at hd ⊢
    exact ⟨hd.2.1, hd.1, hd.2.2⟩
  obtain ⟨l, zs, rfl, hl, hrest⟩ := hm
  obtain ⟨ds, hmany, hfields, hmethods⟩ := hp d hinner.2
  have hmethod : method d (l :: (zs ++ ys)) = .ok m ys :=
    (bind_of_ok (expect_of (accepts_text_of hl) _ _) _).trans (hrest d hinner.1 ys)
  have hall := many_of_some (finds_definition d) (definition_of_method hl hmethod) hmany
  refine ⟨.method m :: ds, hall, ?_, ?_⟩
  · exact hfields
  · simp [Definition.method?, hmethods]

lemma recognizes_noDefinition : Recognizes .source [] ⟨[], []⟩ := by
  intro d _
  exact ⟨[], many_of_none (finds_definition d) (definition_nil d), rfl, rfl⟩

lemma begins_statement {xs : List Token} {a : Statement} (h : Reserved .statement xs a)
    (hs : Sound xs) : ∃ t ys, xs = t :: ys ∧ t.text ∉ ["ELSE", "END"] := by
  obtain ⟨t, ys, rfl, hword | hstart⟩ := begins_of_derives h
  · refine ⟨t, ys, rfl, fun hno => ?_⟩
    simp only [statementWords, List.mem_cons, List.not_mem_nil, or_false] at hword hno
    obtain hno | hno := hno <;> simp [hno] at hword
  · refine ⟨t, ys, rfl, fun hno => ?_⟩
    simp only [List.mem_cons, List.not_mem_nil, or_false] at hno
    have hk : t.text ∈ keywords := by
      obtain hno | hno := hno <;> simp [hno, keywords]
    have := hstart.keyword (hs t (List.mem_cons_self ..)).1 hk
    obtain hno | hno := hno <;> simp [hno] at this

lemma begins_expression {xs : List Token} {a : Expression} (h : Reserved .expression xs a)
    (hs : Sound xs) : ∃ t ys, xs = t :: ys ∧ t.text ∉ statementWords ∧ t.text ∉ [")", ";"] := by
  obtain ⟨t, ys, rfl, hstart⟩ := begins_of_derives h
  have hg := (hs t (List.mem_cons_self ..)).1
  refine ⟨t, ys, rfl, fun hno => ?_, fun hno => ?_⟩
  · simp only [statementWords, List.mem_cons, List.not_mem_nil, or_false] at hno
    have hk : t.text ∈ keywords := by
      obtain hno | hno | hno | hno | hno := hno <;> simp [hno, keywords]
    have := hstart.keyword hg hk
    obtain hno | hno | hno | hno | hno := hno <;> simp [hno] at this
  · simp only [List.mem_cons, List.not_mem_nil, or_false] at hno
    have hk : t.kind = .operator := hg.kind_of_mark (by
      obtain hno | hno := hno <;> simp [hno, marks])
    have := hstart.operator hg hk
    obtain hno | hno := hno <;> simp [hno] at this

lemma begins_arguments {xs : List Token} {es : List Expression} (h : Reserved .arguments xs es)
    (hs : Sound xs) : ∃ t ys, xs = t :: ys ∧ t.text ≠ ")" := by
  cases h with
  | arguments he _ =>
    obtain ⟨t, ys, rfl, -, ht⟩ := begins_expression he (sound_append.mp hs).1
    exact ⟨t, _, rfl, fun h => ht (by simp [h])⟩

/-- Each rule recognizes what derives from its nonterminal. -/
theorem recognizes_of_derives {n : Nonterminal} {xs : List Token} {tree : n.Tree}
    (h : Reserved n xs tree) (hs : Sound xs) : Recognizes n xs tree := by
  induction h with
  | noDefinition => exact recognizes_noDefinition
  | sourceField _ _ ihf ihp =>
    exact recognizes_sourceField (ihf (sound_append.mp hs).1) (ihp (sound_append.mp hs).2)
  | sourceMethod _ _ ihm ihp =>
    exact recognizes_sourceMethod (ihm (sound_append.mp hs).1) (ihp (sound_append.mp hs).2)
  | field hl hn _ hc ih =>
    simp only [sound_cons, sound_append] at hs
    exact recognizes_field hl hn (ih hs.2.2.1) hc
  | constantField hl hk hn _ hc ih =>
    simp only [sound_cons, sound_append] at hs
    exact recognizes_constantField hl hk hn.1 (ih hs.2.2.2.1) hc
  | method hf hn ho _ hc hw _ hk ihp ihs =>
    simp only [sound_cons, sound_append] at hs
    obtain ⟨-, -, -, hxs, hc', -, hys, -⟩ := hs
    exact recognizes_method hf hn.1 ho (ihp hxs) hc hc'.1 hw (ihs hys) hk
  | noName => exact recognizes_noName
  | names hn _ ih => exact recognizes_names hn.1 (ih (sound_cons.mp hs).2)
  | lastName => exact recognizes_lastName
  | moreNames hk hn _ ih =>
    simp only [sound_cons] at hs
    exact recognizes_moreNames hk hn.1 (ih hs.2.2)
  | noStatement => exact recognizes_noStatement
  | statements h _ ihs ihss =>
    obtain ⟨hxs, hys⟩ := sound_append.mp hs
    exact recognizes_statements (ihs hxs) (ihss hys) (begins_statement h hxs)
  | declaration hl hn _ hc ih =>
    simp only [sound_cons, sound_append] at hs
    exact recognizes_declaration hl hn.1 (ih hs.2.2.1) hc
  | branch hi _ hk _ _ ht ihc ihyes ihno =>
    simp only [sound_cons, sound_append] at hs
    obtain ⟨-, hxs, -, hys, hzs, -⟩ := hs
    exact recognizes_branch hi (ihc hxs) hk (ihyes hys) (ihno hzs) ht
  | forLoop hf ho _ ht _ ht' _ hc _ hk ihi ihcondition ihj ihs =>
    simp only [sound_cons, sound_append] at hs
    obtain ⟨-, -, hxs, hgt, hys, -, hzs, hgc, hws, -⟩ := hs
    exact recognizes_forLoop hf ho (ihi hxs) ht hgt.1 (ihcondition hys) ht' (ihj hzs) hc hgc.1
      (ihs hws) hk
  | whileLoop hw _ hk _ ht ihc ihs =>
    simp only [sound_cons, sound_append] at hs
    obtain ⟨-, hxs, -, hys, -⟩ := hs
    exact recognizes_whileLoop hw (ihc hxs) hk (ihs hys) ht
  | exit hr hc => exact recognizes_exit hr hc
  | exitValue hr h hc ih =>
    simp only [sound_cons, sound_append] at hs
    obtain ⟨t, ys, hxs, -, ht⟩ := begins_expression h hs.2.1
    exact recognizes_exitValue hr (ih hs.2.1) ⟨t, ys, hxs, fun h => ht (by simp [h])⟩ hc
  | assignment h hq _ hc iht ihv =>
    simp only [sound_cons, sound_append] at hs
    obtain ⟨hxs, -, hys, -⟩ := hs
    obtain ⟨t, zs, hbegins, hword, -⟩ := begins_expression h hxs
    exact recognizes_assignment (iht hxs) ⟨t, zs, hbegins, hword⟩ hq (ihv hys) hc
  | effect h hc ih =>
    have hxs := (sound_append.mp hs).1
    obtain ⟨t, zs, hbegins, hword, -⟩ := begins_expression h hxs
    exact recognizes_effect (ih hxs) ⟨t, zs, hbegins, hword⟩ hc
  | noElse => exact recognizes_noElse
  | elsePart hk _ ih => exact recognizes_elsePart hk (ih (sound_cons.mp hs).2)
  | noInitializer => exact recognizes_noInitializer
  | initializer hq _ ih => exact recognizes_initializer hq (ih (sound_cons.mp hs).2)
  | noBinding => exact recognizes_noBinding
  | binding hn hq _ ih =>
    simp only [sound_cons] at hs
    exact recognizes_binding hn.1 hq (ih hs.2.2)
  | expression _ ih => exact recognizes_expression (ih hs)
  | operand hk _ ih => exact recognizes_level_of_operand hk (ih hs)
  | binary _ ht ho _ ihl ihr =>
    simp only [sound_cons, sound_append] at hs
    subst ho
    exact recognizes_binary (ihl hs.1) ht (ihr hs.2.2)
  | secondary _ ih =>
    intro _ d hd U hU
    exact ih hs d hd U hU
  | primary _ ih => exact recognizes_secondary_of_primary (ih hs)
  | member _ hp hn ih => exact recognizes_member (ih (sound_append.mp hs).1) hp hn.1
  | methodCall _ hp hn _ ih ihes =>
    simp only [sound_cons, sound_append] at hs
    exact recognizes_methodCall (ih hs.1) hp hn.1 (ihes hs.2.2.2)
  | constant hv =>
    obtain ⟨⟨hg, hr⟩, -⟩ := sound_cons.mp hs
    intro d _ U _
    exact operand_of_constant (constant?_of_denotes hg hr hv) U
  | group ho _ hc ih =>
    simp only [sound_cons, sound_append] at hs
    exact recognizes_group hs.1.1 ho (ih hs.2.1) hc
  | name hn => exact recognizes_name (sound_cons.mp hs).1.1 hn
  | call hn _ ih =>
    obtain ⟨⟨hg, -⟩, hxs⟩ := sound_cons.mp hs
    exact recognizes_call hg hn (ih hxs)
  | noActuals ho hc => exact ⟨_, _, rfl, ho, fun d _ U => arguments_of_none hc U⟩
  | actuals ho h hc ih =>
    simp only [sound_cons, sound_append] at hs
    exact recognizes_actuals ho (ih hs.2.1) (begins_arguments h hs.2.1) hc
  | arguments _ _ ihe ihes =>
    exact recognizes_arguments (ihe (sound_append.mp hs).1) (ihes (sound_append.mp hs).2)
  | lastArgument => exact recognizes_lastArgument
  | moreArguments hk _ _ ihe ihes =>
    simp only [sound_cons, sound_append] at hs
    exact recognizes_moreArguments hk (ihe hs.2.1) (ihes hs.2.2)

/-- A program with all its tokens is read back as its tree. -/
theorem program_of_derives {ts : List Token} {p : Program} (h : Reserved .source ts p)
    (hs : Sound ts) {depth : Nat} (hd : p.nesting ≤ depth) : program depth ts = .ok p [] := by
  obtain ⟨ds, hmany, hfields, hmethods⟩ := recognizes_of_derives h hs depth hd
  refine (bind_of_ok hmany _).trans ?_
  rw [hfields, hmethods]
  rfl

end FrontEnd.Grammar
