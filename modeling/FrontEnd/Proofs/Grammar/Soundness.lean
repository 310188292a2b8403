import FrontEnd.Proofs.Grammar.Runs

/-!
# Soundness of the rules

Whatever a rule reads from tokens of the lexer derives from its nonterminal, and the tree it gives
is the tree of that derivation. Rules that start behind a keyword or a parenthesis complete any
such token to a derivation.
-/

namespace FrontEnd.Grammar

open Rule

/-- Derivations in which a name may be any identifier. -/
abbrev Parses : (n : Nonterminal) → List Token → n.Tree → Prop := Derives fun _ => True

variable {expression : Rule Expression} {statement : Rule Statement}

lemma gives_moreArguments (hl : Leaves expression) (h : expression.Gives (Parses .expression)) :
    (many (behind (.text ",") expression)).Gives (Parses .moreArguments) := by
  refine gives_many (finds_behind _ hl) ((gives_behind (by decide) h).mono
    (Q := fun xs o => (xs = [] ∧ o = none) ∨ ∃ e, o = some e ∧
      ∃ k ys, xs = k :: ys ∧ k.text = "," ∧ Parses .expression ys e) ?_) .lastArgument ?_
  · rintro xs o (h | ⟨k, ys, e, rfl, hk, he, rfl⟩)
    · exact .inl h
    · exact .inr ⟨e, rfl, k, ys, rfl, by simpa using hk, he⟩
  · rintro _ e ys es ⟨k, xs, rfl, hk, he⟩ hes
    exact .moreArguments hk he hes

lemma gives_arguments (hl : Leaves expression) (h : expression.Gives (Parses .expression)) :
    (arguments expression).Gives fun xs es =>
      ∀ o : Token, o.text = "(" → Parses .actuals (o :: xs) es := by
  refine (gives_accept_else (by decide) (gives_pure []) (gives_bind h fun first =>
    gives_bind (gives_moreArguments hl h) fun others =>
      gives_bind (gives_expect (by decide)) fun _ => gives_pure (first :: others))).mono ?_
  rintro _ es (⟨c, _, rfl, hc, rfl, rfl⟩ | ⟨xs, e, _, rfl, he, ys, es, _, rfl, hes, _, c, _, rfl,
    ⟨rfl, hc⟩, rfl, rfl⟩) o ho
  · exact .noActuals ho (by simpa using hc)
  · have := Derives.actuals ho (.arguments he hes) (by simpa using hc)
    simpa using this

lemma gives_group (h : expression.Gives (Parses .expression)) :
    (group expression).Gives fun xs e =>
      ∀ o : Token, o.text = "(" → Parses .primary (o :: xs) e := by
  refine (gives_bind h fun content => gives_bind (gives_expect (by decide)) fun _ =>
    gives_pure (Expression.group content)).mono ?_
  rintro _ _ ⟨xs, e, _, rfl, he, _, c, _, rfl, ⟨rfl, hc⟩, rfl, rfl⟩ o ho
  exact .group ho he (by simpa using hc)

lemma gives_named (hl : Leaves expression) (h : expression.Gives (Parses .expression))
    {n : Token} (hn : n.kind = .identifier) :
    (named expression n.text).Gives fun xs e => Parses .primary (n :: xs) e := by
  refine (gives_accept_else (by decide) (gives_bind (gives_arguments hl h) fun as =>
    gives_pure (Expression.call n.text as)) (gives_pure (Expression.name n.text))).mono ?_
  rintro _ _ (⟨o, _, rfl, ho, xs, es, _, rfl, hes, rfl, rfl⟩ | ⟨rfl, rfl⟩)
  · have := Derives.call ⟨hn, trivial⟩ (hes o (by simpa using ho))
    simpa using this
  · exact .name ⟨hn, trivial⟩

lemma gives_operand (hl : Leaves expression) (h : expression.Gives (Parses .expression)) :
    (operand expression).Gives (Parses .primary) := by
  intro ts e rest hg he
  cases ts with
  | nil => cases he
  | cons t ts =>
    have hts : ∀ u ∈ ts, u.Genuine := fun u hu => hg u (List.mem_cons_of_mem t hu)
    unfold operand at he
    dsimp only at he
    split at he
    · next v hv =>
      cases he
      have ht := hg t (List.mem_cons_self ..)
      exact ⟨[t], rfl, List.forall_mem_singleton.mpr (readable_of_constant? ht hv),
        .constant (denotes_of_constant? ht hv)⟩
    · cases he
    · split at he
      · next ho =>
        obtain ⟨xs, rfl, hxs, hx⟩ := gives_group h ts e rest hts he
        have ht : t.Readable := Token.readable_of_length (by rw [ho]; decide)
        exact ⟨t :: xs, rfl, List.forall_mem_cons.mpr ⟨ht, hxs⟩, hx t ho⟩
      · split at he
        · next hn =>
          obtain ⟨xs, rfl, hxs, hx⟩ := gives_named hl h hn ts e rest hts he
          have ht : t.Readable := Token.readable_of_kind (by simp [hn])
          exact ⟨t :: xs, rfl, List.forall_mem_cons.mpr ⟨ht, hxs⟩, hx⟩
        · cases he

lemma gives_memberOf (hl : Leaves expression) (h : expression.Gives (Parses .expression))
    (receiver : Expression) : (memberOf expression receiver).Gives fun ys e =>
      ∀ xs (p : Token), Parses .secondary xs receiver → p.text = "." →
        Parses .secondary (xs ++ p :: ys) e := by
  refine (gives_bind (gives_name _) fun member => gives_accept_else (by decide)
    (gives_bind (gives_arguments hl h) fun as =>
      gives_pure (Expression.methodCall receiver member as))
    (gives_pure (Expression.member receiver member))).mono ?_
  rintro _ _ ⟨_, _, _, rfl, ⟨n, rfl, hn, rfl⟩, h⟩ xs p hx hp
  obtain ⟨o, _, rfl, ho, ys, es, _, rfl, hes, rfl, rfl⟩ | ⟨rfl, rfl⟩ := h
  · have := Derives.methodCall hx hp ⟨hn, trivial⟩ (hes o (by simpa using ho))
    simpa using this
  · exact .member hx hp ⟨hn, trivial⟩

lemma gives_link (hl : Leaves expression) (h : expression.Gives (Parses .expression))
    (receiver : Expression) : (link expression receiver).Gives fun ys o =>
      (ys = [] ∧ o = none) ∨ ∃ e, o = some e ∧
        ∀ xs, Parses .secondary xs receiver → Parses .secondary (xs ++ ys) e := by
  refine (gives_behind (by decide) (gives_memberOf hl h receiver)).mono ?_
  rintro ys o (h | ⟨p, zs, e, rfl, hp, he, rfl⟩)
  · exact .inl h
  · exact .inr ⟨e, rfl, fun xs hx => he xs p hx (by simpa using hp)⟩

lemma gives_linked (hl : Leaves expression) (h : expression.Gives (Parses .expression)) :
    (linked expression).Gives (Parses (.level 4)) := by
  refine (gives_bind (gives_operand hl h) fun first =>
    gives_repeatedly (finds_link hl) (gives_link hl h) (I := Parses .secondary)
      (fun xs a ys b hx hy => hy xs hx) first).mono ?_
  rintro _ e ⟨xs, first, ys, rfl, hx, hy⟩
  exact .secondary (hy xs (.primary hx))

lemma gives_operatorOf (level : Nat) : (operatorOf level).Gives fun xs o =>
    (xs = [] ∧ o = none) ∨ ∃ (t : Token) (p : Operator),
      xs = [t] ∧ o = some p ∧ t.text = p.symbol ∧ p.level = level := by
  intro ts o rest _ h
  obtain ⟨p, t, rfl, rfl, ht, hp⟩ | ⟨rfl, rfl, -⟩ := operatorOf_ok.mp h
  · have hread : t.Readable := Token.readable_of_length (ht ▸ by cases p <;> decide)
    exact ⟨[t], rfl, List.forall_mem_singleton.mpr hread, .inr ⟨t, p, rfl, rfl, ht, hp⟩⟩
  · exact ⟨[], rfl, nofun, .inl ⟨rfl, rfl⟩⟩

lemma gives_extend (level : Nat) {item : Rule Expression}
    (h : item.Gives (Parses (.level (level + 1)))) (left : Expression) :
    (extend level item left).Gives fun ys o => (ys = [] ∧ o = none) ∨ ∃ e, o = some e ∧
      ∀ xs, Parses (.level level) xs left → Parses (.level level) (xs ++ ys) e := by
  intro ts o rest hg he
  obtain ⟨p, middle, hp, he⟩ := bind_ok.mp he
  obtain ⟨zs, rfl, hzs, ⟨rfl, rfl⟩ | ⟨t, p, rfl, rfl, ht, hlevel⟩⟩ :=
    gives_operatorOf level ts p middle hg hp
  · cases he
    exact ⟨[], rfl, nofun, .inl ⟨rfl, rfl⟩⟩
  · obtain ⟨ys, rfl, hys, _, right, _, rfl, hr, rfl, rfl⟩ := gives_bind h
      (fun right => gives_pure (some (Expression.binary p left right))) middle o rest
      (fun u hu => hg u (List.mem_append_right _ hu)) he
    refine ⟨[t] ++ _, (List.append_assoc ..).symm, List.forall_mem_append.mpr ⟨hzs, hys⟩,
      .inr ⟨_, rfl, fun xs hx => ?_⟩⟩
    have := Derives.binary hx ht hlevel hr
    simpa using this

lemma gives_chain {level : Nat} (hlevel : level < 4) {item : Rule Expression} (hl : Leaves item)
    (h : item.Gives (Parses (.level (level + 1)))) :
    (chain level item).Gives (Parses (.level level)) := by
  refine (gives_bind h fun first => gives_repeatedly (finds_extend level hl)
    (gives_extend level h) (I := Parses (.level level)) (fun xs a ys b hx hy => hy xs hx)
    first).mono ?_
  rintro _ e ⟨xs, first, ys, rfl, hx, hy⟩
  exact hy xs (.operand hlevel hx)

lemma gives_expression (depth : Nat) : (Grammar.expression depth).Gives (Parses .expression) := by
  induction depth with
  | zero => exact gives_fail _ _
  | succ depth ih =>
    have hl := leaves_linked (leaves_expression depth)
    have h3 := gives_chain (show 3 < 4 by omega) hl (gives_linked (leaves_expression depth) ih)
    have hl3 := leaves_chain 3 hl
    have h2 := gives_chain (show 2 < 4 by omega) hl3 h3
    have hl2 := leaves_chain 2 hl3
    have h1 := gives_chain (show 1 < 4 by omega) hl2 h2
    have h0 := gives_chain (show 0 < 4 by omega) (leaves_chain 1 hl2) h1
    exact h0.mono fun xs e he => .expression he

lemma gives_blockItem (closing : List String) (cause : SyntaxCause)
    (h : statement.Gives (Parses .statement)) :
    (blockItem closing cause statement).Gives fun xs o =>
      (xs = [] ∧ o = none) ∨ ∃ s, o = some s ∧ Parses .statement xs s := by
  refine (gives_test_else (gives_aheadOneOf closing) (gives_pure none)
    (gives_test_else gives_atEnd (gives_fail cause fun _ _ => False)
      (gives_bind h fun s => gives_pure (some s)))).mono ?_
  rintro _ o (h | h | ⟨xs, s, _, rfl, hs, rfl, rfl⟩)
  · exact .inl h
  · exact h.elim
  · exact .inr ⟨s, rfl, by simpa using hs⟩

lemma gives_block (closing : List String) (cause : SyntaxCause) (hr : Reads statement)
    (h : statement.Gives (Parses .statement)) :
    (block closing cause statement).Gives (Parses .statements) :=
  gives_many (finds_blockItem closing cause hr) (gives_blockItem closing cause h) .noStatement
    fun _ _ _ _ hs hss => .statements hs hss

lemma gives_body (hr : Reads statement) (h : statement.Gives (Parses .statement)) :
    (body statement).Gives fun xs ss => ∃ (ys : List Token) (e : Token),
      xs = ys ++ [e] ∧ e.text = "END" ∧ Parses .statements ys ss := by
  refine (gives_bind (gives_block _ _ hr h) fun ss => gives_bind (gives_expect (by decide)) fun _ =>
    gives_pure ss).mono ?_
  rintro _ _ ⟨ys, ss, _, rfl, hss, _, e, _, rfl, ⟨rfl, he⟩, rfl, rfl⟩
  exact ⟨ys, e, by simp, by simpa using he, hss⟩

lemma gives_initializer (h : expression.Gives (Parses .expression)) :
    (initializer expression).Gives (Parses .initializer) := by
  refine (gives_behind (by decide) h).mono ?_
  rintro xs o (⟨rfl, rfl⟩ | ⟨q, ys, e, rfl, hq, he, rfl⟩)
  · exact .noInitializer
  · exact .initializer (by simpa using hq) he

lemma gives_declaration (h : expression.Gives (Parses .expression)) :
    (declaration expression).Gives fun xs s =>
      ∀ l : Token, l.text = "LET" → Parses .statement (l :: xs) s := by
  refine (gives_bind (gives_name _) fun variableName => gives_bind (gives_initializer h)
    fun value => gives_bind (gives_expect (by decide)) fun _ =>
      gives_pure (Statement.declaration variableName value)).mono ?_
  rintro _ _ ⟨_, _, _, rfl, ⟨n, rfl, hn, rfl⟩, xs, v, _, rfl, hv, _, c, _, rfl, ⟨rfl, hc⟩, rfl,
    rfl⟩ l hl
  have := Derives.declaration hl ⟨hn, trivial⟩ hv (by simpa using hc)
  simpa using this

lemma gives_elsePart (hr : Reads statement) (h : statement.Gives (Parses .statement)) :
    (elsePart statement).Gives (Parses .elsePart) := by
  refine (gives_accept_else (by decide) (gives_block _ _ hr h) (gives_pure [])).mono ?_
  rintro _ ss (⟨k, xs, rfl, hk, hss⟩ | ⟨rfl, rfl⟩)
  · exact .elsePart (by simpa using hk) hss
  · exact .noElse

lemma gives_branch (h : expression.Gives (Parses .expression)) (hr : Reads statement)
    (hs : statement.Gives (Parses .statement)) : (branch expression statement).Gives fun xs s =>
      ∀ i : Token, i.text = "IF" → Parses .statement (i :: xs) s := by
  refine (gives_bind h fun condition => gives_bind (gives_expect (by decide)) fun _ =>
    gives_bind (gives_block _ _ hr hs) fun thenPart => gives_bind (gives_elsePart hr hs)
      fun elsePart => gives_bind (gives_expect (by decide)) fun _ =>
        gives_pure (Statement.branch condition thenPart elsePart)).mono ?_
  rintro _ _ ⟨xs, c, _, rfl, hc, _, d, _, rfl, ⟨rfl, hd⟩, ys, ts, _, rfl, ht, zs, es, _, rfl, hes,
    _, e, _, rfl, ⟨rfl, he⟩, rfl, rfl⟩ i hi
  have := Derives.branch hi hc (by simpa using hd) ht hes (by simpa using he)
  simpa using this

lemma gives_binding (h : expression.Gives (Parses .expression)) :
    (binding expression).Gives (Parses .binding) := by
  intro ts o rest hg ho
  unfold binding at ho
  split at ho
  · next n q ts =>
    split at ho
    · next hs =>
      have hts : ∀ u ∈ ts, u.Genuine := fun u hu => hg u (by simp [hu])
      obtain ⟨_, rfl, hread, xs, e, _, rfl, he, rfl, rfl⟩ :=
        gives_bind h (fun value => gives_pure (some (⟨n.text, value⟩ : Binding))) ts o rest hts ho
      obtain ⟨hn, hq⟩ : n.kind = .identifier ∧ q.text = "=" := by simpa [startsAs] using hs
      have hnread : n.Readable := Token.readable_of_kind (by simp [hn])
      have hqread : q.Readable := Token.readable_of_length (by rw [hq]; decide)
      refine ⟨n :: q :: xs, by simp, ?_, .binding ⟨hn, trivial⟩ hq he⟩
      exact List.forall_mem_cons.mpr ⟨hnread, List.forall_mem_cons.mpr ⟨hqread, by
        simpa using hread⟩⟩
    · cases ho
      exact ⟨[], rfl, List.forall_mem_nil _, .noBinding⟩
  · cases ho
    exact ⟨[], rfl, List.forall_mem_nil _, .noBinding⟩

lemma gives_forLoop (h : expression.Gives (Parses .expression)) (hr : Reads statement)
    (hs : statement.Gives (Parses .statement)) : (forLoop expression statement).Gives fun xs s =>
      ∀ f : Token, f.text = "FOR" → Parses .statement (f :: xs) s := by
  refine (gives_bind (gives_expect (by decide)) fun _ => gives_bind (gives_binding h) fun i =>
    gives_bind (gives_expect (by decide)) fun _ => gives_bind h fun condition =>
      gives_bind (gives_expect (by decide)) fun _ => gives_bind (gives_binding h) fun j =>
        gives_bind (gives_expect (by decide)) fun _ => gives_bind (gives_body hr hs) fun ss =>
          gives_pure (Statement.forLoop i condition j ss)).mono ?_
  rintro _ _ ⟨_, o, _, rfl, ⟨rfl, ho⟩, xs, i, _, rfl, hi, _, s, _, rfl, ⟨rfl, hs⟩, ys, c, _, rfl,
    hc, _, s', _, rfl, ⟨rfl, hs'⟩, zs, j, _, rfl, hj, _, p, _, rfl, ⟨rfl, hp⟩, _, ss, _, rfl,
    ⟨ws, e, rfl, he, hss⟩, rfl, rfl⟩ f hf
  have := Derives.forLoop hf (by simpa using ho) hi (by simpa using hs) hc (by simpa using hs') hj
    (by simpa using hp) hss he
  simpa using this

lemma gives_whileLoop (h : expression.Gives (Parses .expression)) (hr : Reads statement)
    (hs : statement.Gives (Parses .statement)) : (whileLoop expression statement).Gives fun xs s =>
      ∀ w : Token, w.text = "WHILE" → Parses .statement (w :: xs) s := by
  refine (gives_bind h fun condition => gives_bind (gives_expect (by decide)) fun _ =>
    gives_bind (gives_body hr hs) fun ss => gives_pure (Statement.whileLoop condition ss)).mono ?_
  rintro _ _ ⟨xs, c, _, rfl, hc, _, d, _, rfl, ⟨rfl, hd⟩, _, ss, _, rfl, ⟨ys, e, rfl, he, hss⟩,
    rfl, rfl⟩ w hw
  have := Derives.whileLoop hw hc (by simpa using hd) hss he
  simpa using this

lemma gives_exitValue (h : expression.Gives (Parses .expression)) :
    (exitValue expression).Gives fun xs o =>
      (xs = [] ∧ o = none) ∨ ∃ e, o = some e ∧ Parses .expression xs e := by
  refine (gives_test_else (gives_ahead _) (gives_pure none)
    (gives_bind h fun e => gives_pure (some e))).mono ?_
  rintro _ o (h | ⟨xs, e, _, rfl, he, rfl, rfl⟩)
  · exact .inl h
  · exact .inr ⟨e, rfl, by simpa using he⟩

lemma gives_exit (h : expression.Gives (Parses .expression)) :
    (exit expression).Gives fun xs s =>
      ∀ r : Token, r.text = "RETURN" → Parses .statement (r :: xs) s := by
  refine (gives_bind (gives_exitValue h) fun value => gives_bind (gives_expect (by decide)) fun _ =>
    gives_pure (Statement.exit value)).mono ?_
  rintro _ _ ⟨xs, v, _, rfl, hv, _, s, _, rfl, ⟨rfl, hs⟩, rfl, rfl⟩ r hr
  have hs : s.text = ";" := by simpa using hs
  obtain ⟨rfl, rfl⟩ | ⟨e, rfl, he⟩ := hv
  · exact .exit hr hs
  · have := Derives.exitValue hr he hs
    simpa using this

lemma gives_effect (h : expression.Gives (Parses .expression)) :
    (effect expression).Gives (Parses .statement) := by
  refine (gives_bind h fun target => gives_accept_else (by decide)
    (gives_bind h fun value => gives_bind (gives_expect (by decide)) fun _ =>
      gives_pure (Statement.assignment target value))
    (gives_bind (gives_expect (by decide)) fun _ =>
      gives_pure (Statement.expression target))).mono ?_
  rintro _ s ⟨xs, target, _, rfl, ht, ⟨q, _, rfl, hq, ys, value, _, rfl, hv, _, c, _, rfl,
    ⟨rfl, hc⟩, rfl, rfl⟩ | ⟨_, c, _, rfl, ⟨rfl, hc⟩, rfl, rfl⟩⟩
  · have := Derives.assignment ht (by simpa using hq) hv (by simpa using hc)
    simpa using this
  · have := Derives.effect ht (by simpa using hc)
    simpa using this

lemma gives_anyStatement (h : expression.Gives (Parses .expression)) (hr : Reads statement)
    (hs : statement.Gives (Parses .statement)) :
    (anyStatement expression statement).Gives (Parses .statement) := by
  refine (gives_accept_else (by decide) (gives_declaration h)
    (gives_accept_else (by decide) (gives_branch h hr hs)
      (gives_accept_else (by decide) (gives_forLoop h hr hs)
        (gives_accept_else (by decide) (gives_whileLoop h hr hs)
          (gives_accept_else (by decide) (gives_exit h) (gives_effect h)))))).mono ?_
  rintro _ s (⟨l, xs, rfl, hl, hx⟩ | ⟨i, xs, rfl, hi, hx⟩ | ⟨f, xs, rfl, hf, hx⟩ |
    ⟨w, xs, rfl, hw, hx⟩ | ⟨r, xs, rfl, hr, hx⟩ | hx)
  · exact hx l (by simpa using hl)
  · exact hx i (by simpa using hi)
  · exact hx f (by simpa using hf)
  · exact hx w (by simpa using hw)
  · exact hx r (by simpa using hr)
  · exact hx

lemma gives_statement (depth : Nat) : (Grammar.statement depth).Gives (Parses .statement) := by
  induction depth with
  | zero => exact gives_fail _ _
  | succ depth ih => exact gives_anyStatement (gives_expression depth) (reads_statement depth) ih

lemma gives_fieldRest (depth : Nat) : (fieldRest depth).Gives fun xs f =>
    ∀ l : Token, l.text = "LET" → Parses .field (l :: xs) f := by
  refine (gives_bind (gives_accept (by decide)) fun constant =>
    gives_bind (gives_name _) fun fieldName =>
      gives_bind (gives_initializer (gives_expression depth)) fun value =>
        gives_bind (gives_expect (by decide)) fun _ =>
          gives_pure (⟨fieldName, constant, value⟩ : Field)).mono ?_
  rintro _ _ ⟨_, _, _, rfl, hconstant, _, _, _, rfl, ⟨n, rfl, hn, rfl⟩, xs, v, _, rfl, hv, _, s, _,
    rfl, ⟨rfl, hs⟩, rfl, rfl⟩ l hl
  obtain ⟨rfl, c, rfl, hc⟩ | ⟨rfl, rfl⟩ := hconstant
  · have := Derives.constantField hl (by simpa using hc) ⟨hn, trivial⟩ hv (by simpa using hs)
    simpa using this
  · have := Derives.field hl ⟨hn, trivial⟩ hv (by simpa using hs)
    simpa using this

lemma gives_field (depth : Nat) : (field depth).Gives (Parses .field) := by
  refine (gives_bind (gives_expect (by decide)) fun _ => gives_fieldRest depth).mono ?_
  rintro _ f ⟨_, l, xs, rfl, ⟨rfl, hl⟩, hf⟩
  exact hf l (by simpa using hl)

lemma gives_moreNames (cause : SyntaxCause) :
    (many (behind (.text ",") (name cause))).Gives (Parses .moreNames) := by
  refine gives_many (finds_behind _ (leaves_name _))
    ((gives_behind (by decide) (gives_name cause)).mono
      (Q := fun xs o => (xs = [] ∧ o = none) ∨ ∃ s, o = some s ∧ ∃ k n : Token,
        xs = [k, n] ∧ k.text = "," ∧ n.kind = .identifier ∧ s = n.text) ?_) .lastName ?_
  · rintro xs o (h | ⟨k, _, s, rfl, hk, ⟨n, rfl, hn, rfl⟩, rfl⟩)
    · exact .inl h
    · exact .inr ⟨n.text, rfl, k, n, rfl, by simpa using hk, hn, rfl⟩
  · rintro _ _ ys ps ⟨k, n, rfl, hk, hn, rfl⟩ hps
    exact .moreNames hk ⟨hn, trivial⟩ hps

lemma gives_parameters : parameters.Gives (Parses .names) := by
  refine (gives_test_else (gives_ahead _) (gives_bind (gives_name _) fun first =>
    gives_bind (gives_moreNames _) fun others => gives_pure (first :: others))
    (gives_pure [])).mono ?_
  rintro _ ps (⟨_, _, _, rfl, ⟨n, rfl, hn, rfl⟩, xs, ps, _, rfl, hps, rfl, rfl⟩ | ⟨rfl, rfl⟩)
  · have := Derives.names ⟨hn, trivial⟩ hps
    simpa using this
  · exact .noName

lemma gives_methodRest (depth : Nat) : (methodRest depth).Gives fun xs m =>
    ∀ d : Token, d.text = "DEF" → Parses .method (d :: xs) m := by
  refine (gives_bind (gives_name _) fun methodName => gives_bind (gives_expect (by decide)) fun _ =>
    gives_bind gives_parameters fun names => gives_bind (gives_expect (by decide)) fun _ =>
      gives_bind (gives_expect (by decide)) fun _ =>
        gives_bind (gives_body (reads_statement depth) (gives_statement depth)) fun statements =>
          gives_pure (⟨methodName, names, statements⟩ : Method)).mono ?_
  rintro _ _ ⟨_, _, _, rfl, ⟨n, rfl, hn, rfl⟩, _, o, _, rfl, ⟨rfl, ho⟩, xs, ps, _, rfl, hps, _, c,
    _, rfl, ⟨rfl, hc⟩, _, w, _, rfl, ⟨rfl, hw⟩, _, ss, _, rfl, ⟨ys, e, rfl, he, hss⟩, rfl, rfl⟩ d hd
  have := Derives.method hd ⟨hn, trivial⟩ (by simpa using ho) hps (by simpa using hc)
    (by simpa using hw) hss he
  simpa using this

lemma gives_method (depth : Nat) : (method depth).Gives (Parses .method) := by
  refine (gives_bind (gives_expect (by decide)) fun _ => gives_methodRest depth).mono ?_
  rintro _ m ⟨_, d, xs, rfl, ⟨rfl, hd⟩, hm⟩
  exact hm d (by simpa using hd)

/-- Fields and methods with the tokens they derive. -/
def Defines (xs : List Token) : Definition → Prop
  | .field f => Parses .field xs f
  | .method m => Parses .method xs m

lemma gives_definition (depth : Nat) : (definition depth).Gives fun xs o =>
    (xs = [] ∧ o = none) ∨ ∃ d, o = some d ∧ Defines xs d := by
  refine (gives_test_else gives_atEnd (gives_pure none)
    (gives_test_else (gives_ahead _)
      (gives_bind (gives_field depth) fun f => gives_pure (some (Definition.field f)))
      (gives_test_else (gives_ahead _)
        (gives_bind (gives_method depth) fun m => gives_pure (some (Definition.method m)))
        (gives_fail _ fun _ _ => False)))).mono ?_
  rintro _ o (h | ⟨xs, f, _, rfl, hf, rfl, rfl⟩ | ⟨xs, m, _, rfl, hm, rfl, rfl⟩ | h)
  · exact .inl h
  · exact .inr ⟨_, rfl, by simpa [Defines] using hf⟩
  · exact .inr ⟨_, rfl, by simpa [Defines] using hm⟩
  · exact h.elim

lemma gives_program (depth : Nat) : (program depth).Gives (Parses .source) := by
  refine (gives_bind (gives_many (finds_definition depth) (gives_definition depth)
    (R := fun xs ds => Parses .source xs
      ⟨ds.filterMap Definition.field?, ds.filterMap Definition.method?⟩) .noDefinition ?_)
    fun ds => gives_pure (⟨ds.filterMap Definition.field?, ds.filterMap Definition.method?⟩ :
      Program)).mono ?_
  · intro xs d ys ds hd hds
    cases d with
    | field f => exact .sourceField hd hds
    | method m => exact .sourceMethod hd hds
  · rintro _ _ ⟨xs, ds, _, rfl, hds, rfl, rfl⟩
    simpa using hds

/-- There is a definition unless all tokens are read. -/
lemma eq_nil_of_definition {depth : Nat} {ts rest : List Token}
    (h : definition depth ts = .ok none rest) : ts = [] := by
  cases ts with
  | nil => rfl
  | cons t ts =>
    rw [definition_cons] at h
    split at h
    · obtain ⟨f, middle, -, h⟩ := bind_ok.mp h
      cases h
    · split at h
      · obtain ⟨m, middle, -, h⟩ := bind_ok.mp h
        cases h
      · cases h

/-- A program ends with its last token. -/
lemma program_ends {depth : Nat} {ts rest : List Token} {p : Program}
    (h : program depth ts = .ok p rest) : rest = [] := by
  obtain ⟨ds, middle, hm, h⟩ := bind_ok.mp h
  cases h
  obtain ⟨before, hb⟩ := many_ends (finds_definition depth) hm
  obtain rfl := eq_nil_of_definition hb
  cases hb
  rfl

end FrontEnd.Grammar
