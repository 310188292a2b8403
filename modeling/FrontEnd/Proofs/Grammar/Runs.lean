import FrontEnd.Proofs.Grammar.FirstToken
import FrontEnd.Proofs.Grammar.Reading

/-!
# Runs of the rules

For each rule, which runs of its parts on the tokens in front of it make up a successful run.
-/

namespace FrontEnd.Grammar

open Rule

variable {e : Rule Expression} {s : Rule Statement}

/-- Operands with their members, and some of the levels of operators above them. -/
def ladder (e : Rule Expression) : Nat → Rule Expression
  | 0 => linked e
  | n + 1 => chain (3 - n) (ladder e n)

/-- The rule of a level; that of level 4 reads operands with their members. -/
def rung (e : Rule Expression) (k : Nat) : Rule Expression := ladder e (4 - k)

/-- The step that goes on with an expression on a level. -/
def more (e : Rule Expression) (k : Nat) : Expression → Rule (Option Expression) :=
  if k < 4 then extend k (rung e (k + 1)) else link e

lemma more_of_lt {k : Nat} (hk : k < 4) : more e k = extend k (rung e (k + 1)) := if_pos hk

lemma rung_of_lt {k : Nat} (hk : k < 4) :
    rung e k = rung e (k + 1) >>= fun first => repeatedly (more e k) first := by
  have hn : 4 - k = (4 - (k + 1)) + 1 := by omega
  have hlevel : 3 - (4 - (k + 1)) = k := by omega
  have hladder : ladder e (4 - k) = chain k (ladder e (4 - (k + 1))) := by
    rw [hn, ladder, hlevel]
  rw [more_of_lt hk]
  exact hladder

lemma leaves_ladder (h : Leaves e) (n : Nat) : Leaves (ladder e n) := by
  induction n with
  | zero => exact leaves_linked h
  | succ n ih => exact leaves_chain _ ih

lemma finds_more (h : Leaves e) (k : Nat) (a : Expression) : Finds (more e k a) := by
  unfold more
  split
  · exact finds_extend k (leaves_ladder h _) a
  · exact finds_link h a

/-- That the tokens ahead go on with an expression neither on a level nor on a deeper one. -/
def Stops (k : Nat) (ts : List Token) : Prop :=
  ∀ t ∈ ts.head?, t.text ≠ "(" ∧ (k ≤ 4 → t.text ≠ ".") ∧
    ∀ o : Operator, t.text = o.symbol → o.level < k

lemma Stops.succ {k : Nat} {ts : List Token} (h : Stops k ts) : Stops (k + 1) ts := by
  intro t ht
  obtain ⟨hopen, hpoint, hlevel⟩ := h t ht
  refine ⟨hopen, fun hk => hpoint (by omega), fun o ho => ?_⟩
  have := hlevel o ho
  omega

/-- A token that is no operator and no point ends an expression of any level. -/
lemma stops_cons {t : Token} (k : Nat) (hopen : t.text ≠ "(") (hpoint : t.text ≠ ".")
    (hsymbol : Operator.ofSymbol? t.text = none) (ts : List Token) : Stops k (t :: ts) := by
  intro u hu
  cases hu
  refine ⟨hopen, fun _ => hpoint, fun o ho => ?_⟩
  rw [ho, Operator.ofSymbol?_symbol] at hsymbol
  cases hsymbol

/-- What can follow an expression inside another construct. -/
def closers : List String := [")", ",", ";", "=", "DO"]

lemma stops_closing {t : Token} {s : String} (ht : t.text = s) (hs : s ∈ closers)
    (ts : List Token) : Stops 0 (t :: ts) := by
  have hclosers : ∀ s ∈ closers, s ≠ "(" ∧ s ≠ "." ∧ Operator.ofSymbol? s = none := by decide
  obtain ⟨hopen, hpoint, hsymbol⟩ := hclosers t.text (ht ▸ hs)
  exact stops_cons 0 hopen hpoint hsymbol ts

/-- Members go on with an operand, and with no operator. -/
lemma stops_point {p : Token} (hp : p.text = ".") (ts : List Token) : Stops 5 (p :: ts) := by
  intro t ht
  cases ht
  refine ⟨by simp [hp], fun hk => by omega, fun o _ => ?_⟩
  cases o <;> decide

/-- An operator goes on with the expressions of its level and no deeper one. -/
lemma stops_symbol {t : Token} {o : Operator} (h : t.text = o.symbol) (ts : List Token) :
    Stops (o.level + 1) (t :: ts) := by
  intro u hu
  cases hu
  refine ⟨?_, fun _ => ?_, fun p hp => ?_⟩
  · rw [h]
    cases o <;> decide
  · rw [h]
    cases o <;> decide
  · have hsame := Operator.ofSymbol?_symbol p
    rw [← hp, h, Operator.ofSymbol?_symbol] at hsame
    cases hsame
    omega

lemma text_eq_symbol_iff {s : String} {o p : Operator} (h : Operator.ofSymbol? s = some o) :
    s = p.symbol ↔ o = p := by
  constructor
  · intro hs
    rw [hs, Operator.ofSymbol?_symbol] at h
    injection h with h
    exact h.symm
  · intro hp
    rw [← hp, Operator.symbol_of_ofSymbol? h]

lemma operatorOf_ok {k : Nat} {ts rest : List Token} {o : Option Operator} :
    operatorOf k ts = .ok o rest ↔
      (∃ p t, o = some p ∧ ts = t :: rest ∧ t.text = p.symbol ∧ p.level = k) ∨
      (o = none ∧ ts = rest ∧ ∀ t ∈ ts.head?, ∀ p : Operator, t.text = p.symbol → p.level ≠ k) := by
  cases ts with
  | nil => cases o <;> simp [operatorOf]
  | cons t ts =>
    cases hs : Operator.ofSymbol? t.text with
    | none =>
      have hno : ∀ p : Operator, t.text ≠ p.symbol := by
        intro p hp
        rw [hp, Operator.ofSymbol?_symbol] at hs
        cases hs
      cases o <;> simp [operatorOf, hs, hno]
    | some q =>
      have hq : ∀ p : Operator, t.text = p.symbol ↔ q = p := fun p => text_eq_symbol_iff hs
      by_cases hlevel : q.level = k
      · cases o with
        | none => simp [operatorOf, hs, hlevel, hq]
        | some p =>
          simp only [operatorOf, hs, if_pos hlevel]
          constructor
          · intro h
            injection h with hp hts
            injection hp with hp
            exact .inl ⟨p, t, rfl, by rw [hts], (hq p).mpr hp, hp ▸ hlevel⟩
          · rintro (⟨p', t', hp', hts, htext, -⟩ | ⟨hnone, -⟩)
            · cases hp'
              cases hts
              rw [(hq p).mp htext]
            · cases hnone
      · cases o with
        | none => simp [operatorOf, hs, hlevel, hq]
        | some p =>
          simp only [operatorOf, hs, if_neg hlevel]
          constructor
          · intro h
            cases h
          · rintro (⟨p', t', hp', hts, htext, hk⟩ | ⟨hnone, -⟩)
            · cases hp'
              cases hts
              rw [(hq p).mp htext] at hlevel
              exact absurd hk hlevel
            · cases hnone

lemma operatorOf_of_stops {k : Nat} {ts : List Token}
    (h : ∀ t ∈ ts.head?, ∀ o : Operator, t.text = o.symbol → o.level < k) :
    operatorOf k ts = .ok none ts :=
  operatorOf_ok.mpr (.inr ⟨rfl, rfl, fun t ht o ho => Nat.ne_of_lt (h t ht o ho)⟩)

lemma operatorOf_of_symbol {t : Token} {o : Operator} (h : t.text = o.symbol) (ts : List Token) :
    operatorOf o.level (t :: ts) = .ok (some o) ts :=
  operatorOf_ok.mpr (.inl ⟨o, t, rfl, rfl, h, rfl⟩)

lemma link_of_not {ts : List Token} (h : ∀ t ∈ ts.head?, t.text ≠ ".") (a : Expression) :
    link e a ts = .ok none ts :=
  behind_of_not _ fun t ht => by simpa [Pattern.accepts] using h t ht

lemma more_of_stops {k : Nat} (hk : k ≤ 4) {ts : List Token} (h : Stops k ts) (a : Expression) :
    more e k a ts = .ok none ts := by
  unfold more
  split
  · exact bind_of_ok (operatorOf_of_stops fun t ht => (h t ht).2.2) _
  · exact link_of_not (fun t ht => (h t ht).2.1 hk) a

lemma more_of_binary {t : Token} {o : Operator} (ht : t.text = o.symbol) (left : Expression)
    {ts rest : List Token} {right : Expression} (h : rung e (o.level + 1) ts = .ok right rest) :
    more e o.level left (t :: ts) = .ok (some (.binary o left right)) rest := by
  rw [more_of_lt o.level_lt, extend, bind_of_ok (operatorOf_of_symbol ht ts)]
  exact bind_of_ok h _

/-- That a level comes to an expression behind some tokens, and may go on with it. -/
def ReadsOpen (e : Rule Expression) (k : Nat) (xs : List Token) (a : Expression) : Prop :=
  ∀ U, Stops (k + 1) U → rung e k (xs ++ U) = repeatedly (more e k) a U

/-- That a level ends behind some tokens with an expression. -/
def ReadsClosed (e : Rule Expression) (k : Nat) (xs : List Token) (a : Expression) : Prop :=
  ∀ U, Stops k U → rung e k (xs ++ U) = .ok a U

section Levels

variable {k : Nat} {xs ys : List Token} {a b : Expression}

/-- A level ends where nothing goes on with it. -/
lemma ReadsOpen.closed (hl : Leaves e) (hk : k ≤ 4) (h : ReadsOpen e k xs a) :
    ReadsClosed e k xs a := by
  intro U hU
  rw [h U hU.succ, repeatedly_of_none (finds_more hl k) (more_of_stops hk hU a)]

lemma ReadsClosed.open_below (hk : k < 4) (h : ReadsClosed e (k + 1) xs a) :
    ReadsOpen e k xs a := by
  intro U hU
  rw [rung_of_lt hk, bind_of_ok (h U hU)]

/-- An expression of a level is one of every weaker level. -/
lemma ReadsOpen.lower (hl : Leaves e) {m : Nat} (hkm : k ≤ m) (hm : m ≤ 4)
    (h : ReadsOpen e m xs a) : ReadsOpen e k xs a := by
  induction hkm with
  | refl => exact h
  | step hle ih => exact ih (by omega) ((h.closed hl hm).open_below (by omega))

/-- The left operand is what the repetition has reached, and the operator is its next round. -/
lemma ReadsOpen.binary (hl : Leaves e) {t : Token} {o : Operator} (h : ReadsOpen e o.level xs a)
    (ht : t.text = o.symbol) (hr : ReadsClosed e (o.level + 1) ys b) :
    ReadsOpen e o.level (xs ++ t :: ys) (.binary o a b) := by
  intro U hU
  rw [List.append_assoc, List.cons_append, h _ (stops_symbol ht _)]
  exact repeatedly_of_some (finds_more hl _) (more_of_binary ht a (hr U hU))

end Levels

/-! ### Runs of the rules for expressions -/

lemma accepts_text_of {t : Token} {text : String} (h : t.text = text) :
    (Pattern.text text).accepts t = true := (accepts_text text t).mpr h

lemma not_accepts_text_of {t : Token} {text : String} (h : t.text ≠ text) :
    (Pattern.text text).accepts t = false := by
  simpa [Pattern.accepts] using h

lemma arguments_of_none {c : Token} (hc : c.text = ")") (ts : List Token) :
    arguments e (c :: ts) = .ok [] ts :=
  bind_of_ok (accept_of (accepts_text_of hc) ts) _

lemma arguments_of_some {t c : Token} {ts middle rest : List Token} {a : Expression}
    {as : List Expression} (ht : t.text ≠ ")") (ha : e (t :: ts) = .ok a middle)
    (has : many (behind (.text ",") e) middle = .ok as (c :: rest)) (hc : c.text = ")") :
    arguments e (t :: ts) = .ok (a :: as) rest := by
  have hno : accept [.text ")"] (t :: ts) = .ok false (t :: ts) :=
    accept_of_not fun u hu => by cases hu; exact not_accepts_text_of ht
  unfold arguments
  rw [bind_of_ok hno]
  refine (bind_of_ok ha _).trans ((bind_of_ok has _).trans ?_)
  exact bind_of_ok (expect_of (accepts_text_of hc) _ rest) _

lemma group_of {c : Token} {ts rest : List Token} {a : Expression} (ha : e ts = .ok a (c :: rest))
    (hc : c.text = ")") : group e ts = .ok (.group a) rest :=
  (bind_of_ok ha _).trans (bind_of_ok (expect_of (accepts_text_of hc) _ rest) _)

lemma named_of_call {o : Token} {ts rest : List Token} {as : List Expression} (ho : o.text = "(")
    (has : arguments e ts = .ok as rest) (name : String) :
    named e name (o :: ts) = .ok (.call name as) rest := by
  unfold named
  rw [bind_of_ok (accept_of (accepts_text_of ho) ts)]
  exact bind_of_ok has _

lemma named_of_not {ts : List Token} (h : ∀ t ∈ ts.head?, t.text ≠ "(") (name : String) :
    named e name ts = .ok (.name name) ts :=
  bind_of_ok (accept_of_not fun t ht => not_accepts_text_of (h t ht)) _

lemma operand_of_constant {t : Token} {v : Literal} (h : constant? t = some (.ok v))
    (ts : List Token) : operand e (t :: ts) = .ok (.literal v) ts := by
  simp only [operand, h]

lemma constant?_open {o : Token} (hg : o.Genuine) (ho : o.text = "(") : constant? o = none := by
  have hk := hg.kind_of_mark (by simp [ho, marks])
  simp [constant?, ho, hk]

lemma constant?_name {n : Token} (hn : IsName (· ∉ keywords) n) : constant? n = none := by
  obtain ⟨hk, hw⟩ := hn
  simp only [keywords, List.mem_cons, List.not_mem_nil, or_false, not_or] at hw
  simp [constant?, hk, hw]

lemma operand_of_group {o : Token} (hg : o.Genuine) (ho : o.text = "(") (ts : List Token) :
    operand e (o :: ts) = group e ts := by
  simp only [operand, constant?_open hg ho, ho, if_true]

lemma operand_of_name {n : Token} (hg : n.Genuine) (hn : IsName (· ∉ keywords) n)
    (ts : List Token) : operand e (n :: ts) = named e n.text ts := by
  have hopen : n.text ≠ "(" := by
    intro h
    have hk := hg.kind_of_mark (by simp [h, marks])
    rw [hn.1] at hk
    cases hk
  simp only [operand, constant?_name hn, hopen, hn.1, if_true, if_false]

lemma link_of_member {p n : Token} {ts : List Token} (hp : p.text = ".")
    (hn : n.kind = .identifier) (h : ∀ t ∈ ts.head?, t.text ≠ "(") (a : Expression) :
    link e a (p :: n :: ts) = .ok (some (.member a n.text)) ts := by
  refine behind_of (accepts_text_of hp) ((bind_of_ok (name_of hn _ ts) _).trans ?_)
  exact bind_of_ok (accept_of_not fun t ht => not_accepts_text_of (h t ht)) _

lemma link_of_methodCall {p n o : Token} {ts rest : List Token} {as : List Expression}
    (hp : p.text = ".") (hn : n.kind = .identifier) (ho : o.text = "(")
    (has : arguments e ts = .ok as rest) (a : Expression) :
    link e a (p :: n :: o :: ts) = .ok (some (.methodCall a n.text as)) rest := by
  refine behind_of (accepts_text_of hp) ((bind_of_ok (name_of hn _ _) _).trans ?_)
  refine (bind_of_ok (accept_of (accepts_text_of ho) ts) _).trans ?_
  exact bind_of_ok has _

/-! ### Runs of the rules for statements -/

lemma blockItem_of_closing {closing : List String} {t : Token} (h : t.text ∈ closing)
    (cause : SyntaxCause) (ts : List Token) :
    blockItem closing cause s (t :: ts) = .ok none (t :: ts) := by
  have ha : aheadOneOf closing (t :: ts) = .ok true (t :: ts) := by
    simp [aheadOneOf, h]
  exact bind_of_ok ha _

lemma blockItem_of_statement {closing : List String} {t : Token} (h : t.text ∉ closing)
    {ts rest : List Token} {a : Statement} (ha : s (t :: ts) = .ok a rest) (cause : SyntaxCause) :
    blockItem closing cause s (t :: ts) = .ok (some a) rest := by
  have hno : aheadOneOf closing (t :: ts) = .ok false (t :: ts) := by
    simp [aheadOneOf, h]
  refine (bind_of_ok hno _).trans ?_
  exact (bind_of_ok (show atEnd (t :: ts) = .ok false (t :: ts) from rfl) _).trans (bind_of_ok ha _)

lemma body_of {t : Token} {ts rest : List Token} {ss : List Statement} (ht : t.text = "END")
    (hss : block ["END"] .blockEnd s ts = .ok ss (t :: rest)) : body s ts = .ok ss rest :=
  (bind_of_ok hss _).trans (bind_of_ok (expect_of (accepts_text_of ht) _ rest) _)

lemma initializer_of {q : Token} {ts rest : List Token} {a : Expression} (hq : q.text = "=")
    (ha : e ts = .ok a rest) : initializer e (q :: ts) = .ok (some a) rest :=
  behind_of (accepts_text_of hq) ha

lemma initializer_of_not {ts : List Token} (h : ∀ t ∈ ts.head?, t.text ≠ "=") :
    initializer e ts = .ok none ts :=
  behind_of_not _ fun t ht => not_accepts_text_of (h t ht)

lemma binding_of {n q : Token} {ts rest : List Token} {a : Expression} (hn : n.kind = .identifier)
    (hq : q.text = "=") (ha : e ts = .ok a rest) :
    binding e (n :: q :: ts) = .ok (some ⟨n.text, a⟩) rest := by
  have hs : startsAs [.kind .identifier, .text "="] (n :: q :: ts) = true := by
    simp [startsAs, hn, hq]
  unfold binding
  dsimp only
  rw [if_pos hs]
  exact bind_of_ok ha _

lemma binding_of_not {ts : List Token} (h : ∀ t ∈ ts.head?, t.kind ≠ .identifier) :
    binding e ts = .ok none ts := by
  unfold binding
  split
  · next n q ts =>
    have hs : startsAs [.kind .identifier, .text "="] (n :: q :: ts) = false := by
      simp [startsAs, Pattern.accepts, h n rfl]
    rw [hs, if_neg Bool.false_ne_true]
  · rfl

lemma declaration_of {n c : Token} {ts rest : List Token} {v : Option Expression}
    (hn : n.kind = .identifier) (hv : initializer e ts = .ok v (c :: rest)) (hc : c.text = ";") :
    declaration e (n :: ts) = .ok (.declaration n.text v) rest :=
  (bind_of_ok (name_of hn _ ts) _).trans
    ((bind_of_ok hv _).trans (bind_of_ok (expect_of (accepts_text_of hc) _ rest) _))

lemma branch_of {d k : Token} {ts middle middle' rest : List Token} {c : Expression}
    {yes no : List Statement} (hc : e ts = .ok c (d :: middle)) (hd : d.text = "DO")
    (hyes : block ["ELSE", "END"] .branchEnd s middle = .ok yes middle')
    (hno : elsePart s middle' = .ok no (k :: rest)) (hk : k.text = "END") :
    branch e s ts = .ok (.branch c yes no) rest := by
  refine (bind_of_ok hc _).trans ((bind_of_ok (expect_of (accepts_text_of hd) _ middle) _).trans ?_)
  refine (bind_of_ok hyes _).trans ((bind_of_ok hno _).trans ?_)
  exact bind_of_ok (expect_of (accepts_text_of hk) _ rest) _

lemma elsePart_of {k : Token} {ts rest : List Token} {ss : List Statement} (hk : k.text = "ELSE")
    (hss : block ["END"] .blockEnd s ts = .ok ss rest) : elsePart s (k :: ts) = .ok ss rest :=
  (bind_of_ok (accept_of (accepts_text_of hk) ts) _).trans hss

lemma elsePart_of_not {ts : List Token} (h : ∀ t ∈ ts.head?, t.text ≠ "ELSE") :
    elsePart s ts = .ok [] ts :=
  bind_of_ok (accept_of_not fun t ht => not_accepts_text_of (h t ht)) _

lemma forLoop_of {o t t' c : Token} {ts middle middle' middle'' rest : List Token}
    {i j : Option Binding} {condition : Expression} {ss : List Statement} (ho : o.text = "(")
    (hi : binding e ts = .ok i (t :: middle)) (ht : t.text = ";")
    (hcondition : e middle = .ok condition (t' :: middle')) (ht' : t'.text = ";")
    (hj : binding e middle' = .ok j (c :: middle'')) (hc : c.text = ")")
    (hss : body s middle'' = .ok ss rest) :
    forLoop e s (o :: ts) = .ok (.forLoop i condition j ss) rest := by
  refine (bind_of_ok (expect_of (accepts_text_of ho) _ ts) _).trans ?_
  refine (bind_of_ok hi _).trans ((bind_of_ok (expect_of (accepts_text_of ht) _ middle) _).trans ?_)
  refine (bind_of_ok hcondition _).trans
    ((bind_of_ok (expect_of (accepts_text_of ht') _ middle') _).trans ?_)
  refine (bind_of_ok hj _).trans
    ((bind_of_ok (expect_of (accepts_text_of hc) _ middle'') _).trans ?_)
  exact bind_of_ok hss _

lemma whileLoop_of {d : Token} {ts middle rest : List Token} {c : Expression} {ss : List Statement}
    (hc : e ts = .ok c (d :: middle)) (hd : d.text = "DO") (hss : body s middle = .ok ss rest) :
    whileLoop e s ts = .ok (.whileLoop c ss) rest :=
  (bind_of_ok hc _).trans ((bind_of_ok (expect_of (accepts_text_of hd) _ middle) _).trans
    (bind_of_ok hss _))

lemma exit_of_none {c : Token} (hc : c.text = ";") (ts : List Token) :
    exit e (c :: ts) = .ok (.exit none) ts := by
  have ha : ahead [.text ";"] (c :: ts) = .ok true (c :: ts) := by
    simp [ahead, startsAs, hc]
  have hv : exitValue e (c :: ts) = .ok none (c :: ts) := bind_of_ok ha _
  exact (bind_of_ok hv _).trans (bind_of_ok (expect_of (accepts_text_of hc) _ ts) _)

lemma exit_of_some {t c : Token} {ts rest : List Token} {a : Expression} (ht : t.text ≠ ";")
    (ha : e (t :: ts) = .ok a (c :: rest)) (hc : c.text = ";") :
    exit e (t :: ts) = .ok (.exit (some a)) rest := by
  have hno : ahead [.text ";"] (t :: ts) = .ok false (t :: ts) := by
    simp [ahead, startsAs, Pattern.accepts, ht]
  have hv : exitValue e (t :: ts) = .ok (some a) (c :: rest) :=
    (bind_of_ok hno _).trans (bind_of_ok ha _)
  exact (bind_of_ok hv _).trans (bind_of_ok (expect_of (accepts_text_of hc) _ rest) _)

lemma effect_of_assignment {q c : Token} {ts middle rest : List Token} {target value : Expression}
    (ht : e ts = .ok target (q :: middle)) (hq : q.text = "=")
    (hv : e middle = .ok value (c :: rest)) (hc : c.text = ";") :
    effect e ts = .ok (.assignment target value) rest := by
  refine (bind_of_ok ht _).trans ((bind_of_ok (accept_of (accepts_text_of hq) middle) _).trans ?_)
  exact (bind_of_ok hv _).trans (bind_of_ok (expect_of (accepts_text_of hc) _ rest) _)

lemma effect_of_expression {c : Token} {ts rest : List Token} {a : Expression}
    (ha : e ts = .ok a (c :: rest)) (hc : c.text = ";") :
    effect e ts = .ok (.expression a) rest := by
  have hno : accept [.text "="] (c :: rest) = .ok false (c :: rest) :=
    accept_of_not fun t ht => by cases ht; exact not_accepts_text_of (by simp [hc])
  refine (bind_of_ok ha _).trans ((bind_of_ok hno _).trans ?_)
  exact bind_of_ok (expect_of (accepts_text_of hc) _ rest) _

lemma accept_else_of {p : Pattern} {t : Token} (h : p.accepts t = true) {α : Type} (r r' : Rule α)
    (ts : List Token) : (accept [p] >>= fun b => if b = true then r else r') (t :: ts) = r ts :=
  bind_of_ok (accept_of h ts) _

lemma accept_else_of_not {p : Pattern} {ts : List Token} (h : ∀ t ∈ ts.head?, p.accepts t = false)
    {α : Type} (r r' : Rule α) :
    (accept [p] >>= fun b => if b = true then r else r') ts = r' ts :=
  bind_of_ok (accept_of_not h) _

/-- A statement whose first token has a text is handled by the rule of that text. -/
lemma anyStatement_cons (t : Token) (ts : List Token) :
    anyStatement e s (t :: ts) =
      if t.text = "LET" then declaration e ts
      else if t.text = "IF" then branch e s ts
      else if t.text = "FOR" then forLoop e s ts
      else if t.text = "WHILE" then whileLoop e s ts
      else if t.text = "RETURN" then exit e ts
      else effect e (t :: ts) := by
  have step : ∀ (word : String) (r r' : Rule Statement),
      (accept [.text word] >>= fun b => if b = true then r else r') (t :: ts) =
        if t.text = word then r ts else r' (t :: ts) := by
    intro word r r'
    by_cases h : t.text = word
    · rw [accept_else_of (accepts_text_of h), if_pos h]
    · rw [if_neg h]
      exact accept_else_of_not (fun u hu => by cases hu; exact not_accepts_text_of h) r r'
  simp only [anyStatement, step]

/-! ### Runs of the rules for programs -/

lemma fieldRest_of {n c : Token} {ts rest : List Token} {v : Option Expression} {depth : Nat}
    (hn : n.kind = .identifier) (hw : n.text ≠ "CONST")
    (hv : initializer (Grammar.expression depth) ts = .ok v (c :: rest)) (hc : c.text = ";") :
    fieldRest depth (n :: ts) = .ok ⟨n.text, false, v⟩ rest := by
  have hno : accept [.text "CONST"] (n :: ts) = .ok false (n :: ts) :=
    accept_of_not fun t ht => by cases ht; exact not_accepts_text_of hw
  refine (bind_of_ok hno _).trans ((bind_of_ok (name_of hn _ ts) _).trans ?_)
  exact (bind_of_ok hv _).trans (bind_of_ok (expect_of (accepts_text_of hc) _ rest) _)

lemma fieldRest_of_constant {k n c : Token} {ts rest : List Token} {v : Option Expression}
    {depth : Nat} (hk : k.text = "CONST") (hn : n.kind = .identifier)
    (hv : initializer (Grammar.expression depth) ts = .ok v (c :: rest)) (hc : c.text = ";") :
    fieldRest depth (k :: n :: ts) = .ok ⟨n.text, true, v⟩ rest := by
  refine (bind_of_ok (accept_of (accepts_text_of hk) _) _).trans
    ((bind_of_ok (name_of hn _ ts) _).trans ?_)
  exact (bind_of_ok hv _).trans (bind_of_ok (expect_of (accepts_text_of hc) _ rest) _)

lemma parameters_of {n : Token} {ts rest : List Token} {names : List String}
    (hn : n.kind = .identifier)
    (hnames : many (behind (.text ",") (name .parameterName)) ts = .ok names rest) :
    parameters (n :: ts) = .ok (n.text :: names) rest := by
  have ha : ahead [.kind .identifier] (n :: ts) = .ok true (n :: ts) := by
    simp [ahead, startsAs, hn]
  refine (bind_of_ok ha _).trans ((bind_of_ok (name_of hn _ ts) _).trans ?_)
  exact bind_of_ok hnames _

lemma parameters_of_not {ts : List Token} (h : ∀ t ∈ ts.head?, t.kind ≠ .identifier) :
    parameters ts = .ok [] ts := by
  have hno : ahead [.kind .identifier] ts = .ok false ts := by
    cases ts with
    | nil => rfl
    | cons t ts => simp [ahead, startsAs, Pattern.accepts, h t rfl]
  exact bind_of_ok hno _

lemma methodRest_of {n o c w : Token} {ts middle rest : List Token} {names : List String}
    {ss : List Statement} {depth : Nat} (hn : n.kind = .identifier) (ho : o.text = "(")
    (hnames : parameters ts = .ok names (c :: w :: middle)) (hc : c.text = ")")
    (hw : w.text = "DO") (hss : body (Grammar.statement depth) middle = .ok ss rest) :
    methodRest depth (n :: o :: ts) = .ok ⟨n.text, names, ss⟩ rest := by
  refine (bind_of_ok (name_of hn _ _) _).trans
    ((bind_of_ok (expect_of (accepts_text_of ho) _ ts) _).trans ?_)
  refine (bind_of_ok hnames _).trans ((bind_of_ok (expect_of (accepts_text_of hc) _ _) _).trans ?_)
  exact (bind_of_ok (expect_of (accepts_text_of hw) _ middle) _).trans (bind_of_ok hss _)

lemma definition_nil (depth : Nat) : definition depth [] = .ok none [] := rfl

lemma definition_cons (depth : Nat) (t : Token) (ts : List Token) :
    definition depth (t :: ts) =
      if t.text = "LET" then (field depth >>= fun f => pure (some (Definition.field f))) (t :: ts)
      else if t.text = "DEF" then
        (method depth >>= fun m => pure (some (Definition.method m))) (t :: ts)
      else .error (.syntactic .definition) (t :: ts) := by
  have step : ∀ (word : String) (r r' : Rule (Option Definition)),
      (ahead [.text word] >>= fun b => if b = true then r else r') (t :: ts) =
        if t.text = word then r (t :: ts) else r' (t :: ts) := by
    intro word r r'
    by_cases h : t.text = word
    · have ha : ahead [.text word] (t :: ts) = .ok true (t :: ts) := by
        simp [ahead, startsAs, h]
      rw [if_pos h]
      exact bind_of_ok ha _
    · have ha : ahead [.text word] (t :: ts) = .ok false (t :: ts) := by
        simp [ahead, startsAs, Pattern.accepts, h]
      rw [if_neg h]
      exact bind_of_ok ha _
  have hstart : atEnd (t :: ts) = .ok false (t :: ts) := rfl
  unfold definition
  rw [bind_of_ok hstart]
  simp only [Bool.false_eq_true, if_false, step]
  rfl

lemma definition_of_field {l : Token} {ts rest : List Token} {f : Field} {depth : Nat}
    (hl : l.text = "LET") (hf : field depth (l :: ts) = .ok f rest) :
    definition depth (l :: ts) = .ok (some (.field f)) rest := by
  rw [definition_cons, if_pos hl]
  exact bind_of_ok hf _

lemma definition_of_method {d : Token} {ts rest : List Token} {m : Method} {depth : Nat}
    (hd : d.text = "DEF") (hm : method depth (d :: ts) = .ok m rest) :
    definition depth (d :: ts) = .ok (some (.method m)) rest := by
  have hl : d.text ≠ "LET" := by simp [hd]
  rw [definition_cons, if_neg hl, if_pos hd]
  exact bind_of_ok hm _

end FrontEnd.Grammar
