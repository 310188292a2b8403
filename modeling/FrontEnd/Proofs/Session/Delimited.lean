import FrontEnd.Proofs.Lexical.Alone
import FrontEnd.Proofs.Prefix.Program
import FrontEnd.Proofs.Session.Parsing

/-!
# Constructs delimit themselves

What a call reads of fresh tokens as a field, a method or a statement it reads in the same way
whatever stands behind, so that no such construct goes on as a longer one. An expression goes on
only with an operator, a point or an opening parenthesis.
-/

namespace FrontEnd

open Grammar Rule

/-- The tokens that may follow what a call has read without a change to it. -/
def Grammar.Goal.Follows : Goal → List Token → Prop
  | field, _ | method, _ | statement, _ => True
  | expression, us =>
    ∀ t ∈ us.head?, t.text ≠ "(" ∧ t.text ≠ "." ∧ ∀ o : Operator, t.text ≠ o.symbol
  | program, us => us = []

lemma stops_of_follows {us : List Token} (h : Goal.expression.Follows us) : Stops 0 us := by
  intro t ht
  obtain ⟨hopen, hpoint, hsymbol⟩ := h t ht
  exact ⟨hopen, fun _ => hpoint, fun o ho => absurd ho (hsymbol o)⟩

/-- The rule of a construct looks at nothing behind the construct but what may not follow it. -/
lemma lookahead_construct (depth : Nat) (goal : Goal) :
    Lookahead (construct depth goal) (construct depth goal) fun _ us => goal.Follows us := by
  cases goal with
  | program => exact lookahead_map _ (lookahead_program (Nat.le_refl depth)) fun _ _ h => h
  | field => exact lookahead_map _ (lookahead_field (Nat.le_refl depth)) fun _ _ h => h
  | method => exact lookahead_map _ (lookahead_method (Nat.le_refl depth)) fun _ _ h => h
  | statement => exact lookahead_map _ (lookahead_statement (Nat.le_refl depth)) fun _ _ h => h
  | expression =>
    exact lookahead_map _ (lookahead_expression (Nat.le_refl depth)) fun _ _ => stops_of_follows

namespace Parsing

/-- That a call on fresh tokens gives a construct and reads so many tokens. -/
def Yields (source : String) (goal : Goal) (ts : List Token) (x : Construct) (count : Nat) : Prop :=
  let o := call source (.start ts) (.read goal)
  o.answer = .ok (.construct x) ∧ o.cursor.index = count

lemma call_start (source : String) (goal : Goal) (ts : List Token) :
    call source (.start ts) (.read goal) =
      .of source (.start ts) ((Answer.construct <$> construct maxNesting goal) ts) :=
  call_eq source (.start ts) (.read goal)

lemma yields_iff {source : String} {goal : Goal} {ts : List Token} {x : Construct} {count : Nat} :
    Yields source goal ts x count ↔
      ∃ c rest, ts = c ++ rest ∧ c.length = count ∧ construct maxNesting goal ts = .ok x rest := by
  rw [Yields, call_start, map_apply]
  cases h : construct maxNesting goal ts with
  | ok y rest =>
    constructor
    · rintro ⟨hx, hcount⟩
      cases hx
      obtain ⟨c, rfl⟩ := leaves_ok (leaves_construct maxNesting goal) h
      refine ⟨c, rest, rfl, ?_, rfl⟩
      rw [← hcount]
      simp [Outcome.of, TokenCursor.leaving, TokenCursor.start]
    · rintro ⟨c, left, rfl, rfl, hleft⟩
      cases hleft
      exact ⟨rfl, by simp [Outcome.of, TokenCursor.leaving, TokenCursor.start]⟩
  | error problem rest =>
    constructor
    · rintro ⟨hx, -⟩
      cases hx
    · rintro ⟨c, left, -, -, hleft⟩
      cases hleft

/-- What has been read is read in the same way in front of whatever may follow. -/
lemma Yields.followed {source : String} {goal : Goal} {ts : List Token} {x : Construct}
    {count : Nat} (h : Yields source goal ts x count) {us : List Token} (hus : goal.Follows us)
    (source' : String) : Yields source' goal (ts.take count ++ us) x count := by
  obtain ⟨c, rest, rfl, rfl, hx⟩ := yields_iff.mp h
  rw [List.take_left]
  refine yields_iff.mpr ⟨c, us, rfl, rfl, ?_⟩
  exact (lookahead_construct maxNesting goal).ok hx (Alike.refl c) (.inr hus)

end Parsing

/-- That a name, a value or none and a semicolon are read in front of the tokens left. -/
def Declares (depth : Nat) (ts rest : List Token) : Prop :=
  ∃ n us v s, ts = n :: us ∧ initializer (Grammar.expression depth) us = .ok v (s :: rest) ∧
    s.text = ";"

lemma Declares.mono {depth depth' : Nat} (h : depth ≤ depth') {ts rest : List Token}
    (hd : Declares depth ts rest) : Declares depth' ts rest := by
  obtain ⟨n, us, v, s, rfl, hv, hs⟩ := hd
  have hlook := lookahead_initializer (lookahead_expression h)
  obtain ⟨c, rfl⟩ := leaves_ok hlook.leaves hv
  have hagree : Agree 1 (s :: rest) (s :: rest) := (Alike.refl _).agree 1
  exact ⟨n, _, v, s, rfl, hlook.ok hv (Alike.refl c) (.inl hagree), hs⟩

lemma Declares.unique {depth : Nat} {ts rest rest' : List Token} (h : Declares depth ts rest)
    (h' : Declares depth ts rest') : rest = rest' := by
  obtain ⟨n, us, v, s, rfl, hv, -⟩ := h
  obtain ⟨n', us', v', s', hts, hv', -⟩ := h'
  cases hts
  rw [hv] at hv'
  cases hv'
  rfl

lemma declares_of_tail {α : Type} {depth : Nat} {n : Token} {us rest : List Token}
    {cause : SyntaxCause} {g : Option Expression → α} {a : α}
    (h : (do
      let v ← initializer (Grammar.expression depth)
      let _ ← expect (.text ";") cause
      return g v : Rule α) us = .ok a rest) : Declares depth (n :: us) rest := by
  obtain ⟨v, middle, hv, hrest⟩ := bind_ok.mp h
  obtain ⟨s, left, hs, ha⟩ := bind_ok.mp hrest
  obtain ⟨rfl, hsemicolon⟩ := expect_ok.mp hs
  cases ha
  exact ⟨n, us, v, s, rfl, hv, by simpa using hsemicolon⟩

lemma begins_field {depth : Nat} {ts rest : List Token} {f : Field}
    (h : Grammar.field depth ts = .ok f rest) :
    ∃ l us, ts = l :: us ∧ l.text = "LET" ∧
      (Declares depth us rest ∨
        ∃ c n vs, us = c :: n :: vs ∧ n.kind = .identifier) := by
  obtain ⟨l, us, hl, hrest⟩ := bind_ok.mp h
  obtain ⟨rfl, hlet⟩ := expect_ok.mp hl
  refine ⟨l, us, rfl, by simpa using hlet, ?_⟩
  obtain ⟨constant, middle, hc, hnamed⟩ := bind_ok.mp hrest
  obtain ⟨s, left, hn, htail⟩ := bind_ok.mp hnamed
  obtain ⟨n, rfl, hk, -⟩ := name_ok.mp hn
  obtain ⟨-, c, rfl, -⟩ | ⟨-, rfl, -⟩ := accept_ok.mp hc
  · exact .inr ⟨c, n, left, rfl, hk⟩
  · exact .inl (declares_of_tail htail)

lemma begins_method {depth : Nat} {ts rest : List Token} {m : Method}
    (h : Grammar.method depth ts = .ok m rest) :
    ∃ l n us, ts = l :: n :: us ∧ l.text = "DEF" ∧ n.kind = .identifier := by
  obtain ⟨l, us, hl, hrest⟩ := bind_ok.mp h
  obtain ⟨rfl, hdef⟩ := expect_ok.mp hl
  obtain ⟨s, left, hn, -⟩ := bind_ok.mp hrest
  obtain ⟨n, rfl, hk, -⟩ := name_ok.mp hn
  exact ⟨l, n, left, rfl, by simpa using hdef, hk⟩

lemma declares_of_statement {depth : Nat} {l : Token} {us rest : List Token} {a : Statement}
    (hl : l.text = "LET") (h : Grammar.statement (depth + 1) (l :: us) = .ok a rest) :
    Declares depth us rest := by
  rw [Grammar.statement, anyStatement_cons, if_pos hl] at h
  obtain ⟨s, left, hn, htail⟩ := bind_ok.mp h
  obtain ⟨n, rfl, -⟩ := name_ok.mp hn
  exact declares_of_tail htail

/-- A name of the lexer is no mark and no operator. -/
lemma Token.Genuine.text_ne {n : Token} (hg : n.Genuine) (hk : n.kind = .identifier) :
    n.text ∉ marks ∧ ∀ o : Operator, n.text ≠ o.symbol := by
  constructor
  · intro h
    have := hg.kind_of_mark h
    simp [hk] at this
  · intro o h
    have := hg.kind_eq (h ▸ spells_symbol o)
    simp [hk] at this

lemma not_declares_of_name {depth : Nat} {c n : Token} {vs rest : List Token} (hg : n.Genuine)
    (hk : n.kind = .identifier) : ¬Declares depth (c :: n :: vs) rest := by
  rintro ⟨m, us, v, s, hts, hv, hs⟩
  obtain ⟨-, rfl⟩ := List.cons_eq_cons.mp hts
  have hmark := (hg.text_ne hk).1
  have hnone : initializer (Grammar.expression depth) (n :: vs) = .ok none (n :: vs) :=
    initializer_of_not fun t ht => by
      cases ht
      intro h
      simp [h, marks] at hmark
  rw [hnone] at hv
  cases hv
  simp [hs, marks] at hmark

/-- No statement begins as a method does: with two names next, the first one is all of an
expression, and the second one is neither an equals sign nor a semicolon. -/
lemma statement_not_ok {depth : Nat} {l n : Token} (hl : l.Genuine) (hdef : l.text = "DEF")
    (hn : n.Genuine) (hk : n.kind = .identifier) {us rest : List Token} {a : Statement} :
    Grammar.statement (depth + 2) (l :: n :: us) ≠ .ok a rest := by
  intro h
  obtain ⟨hmark, hsymbol⟩ := hn.text_ne hk
  simp only [marks, List.mem_cons, List.not_mem_nil, or_false, not_or] at hmark
  obtain ⟨hopen, -, -, hpoint, hsemicolon, hequals⟩ := hmark
  have hlook : Alike [word "DEF"] [l] := by
    simp [Alike, Token.look, word, hdef, hl.kind_of_keyword (by simp [hdef, keywords])]
  have hstops : Stops 0 (n :: us) := by
    intro t ht
    cases ht
    exact ⟨hopen, fun _ => hpoint, fun o ho => absurd ho (hsymbol o)⟩
  have hname : Grammar.expression (depth + 1) ([word "DEF"] ++ []) = .ok (.name "DEF") [] := rfl
  have htarget : Grammar.expression (depth + 1) (l :: n :: us) = .ok (.name "DEF") (n :: us) :=
    (lookahead_expression (Nat.le_refl _)).ok hname hlook (.inr hstops)
  have heffect : Grammar.statement (depth + 2) (l :: n :: us) =
      effect (Grammar.expression (depth + 1)) (l :: n :: us) :=
    anyStatement_of_effect (by simp [hdef, statementWords]) (n :: us)
  have hnot : ∀ t ∈ (n :: us).head?, (Pattern.text "=").accepts t = false := by
    intro t ht
    cases ht
    exact not_accepts_text_of hequals
  rw [heffect, effect, bind_of_ok htarget, effectOf, accept_else_of_not hnot] at h
  obtain ⟨s, middle, hs, -⟩ := bind_ok.mp h
  obtain ⟨hcons, hp⟩ := expect_ok.mp hs
  cases hcons
  exact hsemicolon (by simpa using hp)

/-- The constructs with a mark or a keyword at their end. -/
@[simp] def delimited : List Goal := [.field, .method, .statement]

lemma follows_of_delimited {goal : Goal} (h : goal ∈ delimited) (us : List Token) :
    goal.Follows us := by
  cases goal with
  | field | method | statement => trivial
  | program | expression => simp at h

lemma field_not_method {depth : Nat} {ts rest rest' : List Token} {f : Field} {m : Method}
    (hf : Grammar.field depth ts = .ok f rest) : Grammar.method depth ts ≠ .ok m rest' := by
  intro hm
  obtain ⟨l, us, rfl, hlet, -⟩ := begins_field hf
  obtain ⟨l', n, vs, hts, hdef, -⟩ := begins_method hm
  cases hts
  rw [hlet] at hdef
  exact absurd hdef (by decide)

section

variable {ts rest rest' : List Token} (hg : ∀ t ∈ ts, t.Genuine)

include hg

lemma method_not_statement {m : Method} {s : Statement}
    (hm : Grammar.method maxNesting ts = .ok m rest) :
    Grammar.statement maxNesting ts ≠ .ok s rest' := by
  obtain ⟨l, n, us, rfl, hdef, hk⟩ := begins_method hm
  obtain ⟨depth, hdepth⟩ : ∃ depth, maxNesting = depth + 2 := ⟨_, rfl⟩
  rw [hdepth]
  exact statement_not_ok (hg l (by simp)) hdef (hg n (by simp)) hk

/-- A field that is a statement as well is the declaration with the same tokens. -/
lemma field_statement_rest {f : Field} {s : Statement}
    (hf : Grammar.field maxNesting ts = .ok f rest)
    (hs : Grammar.statement maxNesting ts = .ok s rest') : rest = rest' := by
  obtain ⟨l, us, rfl, hl, hfield⟩ := begins_field hf
  have hstatement := declares_of_statement hl hs
  obtain hfield | ⟨c, n, vs, rfl, hk⟩ := hfield
  · exact hfield.unique (hstatement.mono (by decide))
  · exact absurd hstatement (not_declares_of_name (hg n (by simp)) hk)

/-- On tokens of the lexer, those of these rules that succeed leave the same tokens. -/
lemma delimited_rest {goal goal' : Goal} (h : goal ∈ delimited) (h' : goal' ∈ delimited)
    {x y : Construct} (hx : construct maxNesting goal ts = .ok x rest)
    (hy : construct maxNesting goal' ts = .ok y rest') : rest = rest' := by
  by_cases hsame : goal = goal'
  · subst hsame
    rw [hx] at hy
    cases hy
    rfl
  cases goal with
  | program | expression => simp at h
  | field =>
    obtain ⟨f, hf, -⟩ := map_ok hx
    cases goal' with
    | program | expression => simp at h'
    | field => exact absurd rfl hsame
    | method =>
      obtain ⟨m, hm, -⟩ := map_ok hy
      exact absurd hm (field_not_method hf)
    | statement =>
      obtain ⟨s, hs, -⟩ := map_ok hy
      exact field_statement_rest hg hf hs
  | method =>
    obtain ⟨m, hm, -⟩ := map_ok hx
    cases goal' with
    | program | expression => simp at h'
    | field =>
      obtain ⟨f, hf, -⟩ := map_ok hy
      exact absurd hm (field_not_method hf)
    | method => exact absurd rfl hsame
    | statement =>
      obtain ⟨s, hs, -⟩ := map_ok hy
      exact absurd hs (method_not_statement hg hm)
  | statement =>
    obtain ⟨s, hs, -⟩ := map_ok hx
    cases goal' with
    | program | expression => simp at h'
    | field =>
      obtain ⟨f, hf, -⟩ := map_ok hy
      exact (field_statement_rest hg hf hs).symm
    | method =>
      obtain ⟨m, hm, -⟩ := map_ok hy
      exact absurd hs (method_not_statement hg hm)
    | statement => exact absurd rfl hsame

end

namespace Parsing

/-- The tokens that a call on fresh tokens can read as a construct. -/
def IsConstruct (goal : Goal) (c : List Token) : Prop :=
  ∃ source ts x count, Yields source goal ts x count ∧ c = ts.take count

lemma IsConstruct.followed {goal : Goal} {c : List Token} (h : IsConstruct goal c)
    {us : List Token} (hus : goal.Follows us) :
    ∃ x, construct maxNesting goal (c ++ us) = .ok x us := by
  obtain ⟨source, ts, x, count, hx, rfl⟩ := h
  obtain ⟨c, rest, hts, hcount, hrule⟩ := yields_iff.mp (hx.followed hus source)
  have hlength : (ts.take count).length = count := by
    obtain ⟨c, rest, rfl, rfl, -⟩ := yields_iff.mp hx
    simp
  obtain ⟨-, rfl⟩ := List.append_inj hts (hlength.trans hcount.symm)
  exact ⟨x, hrule⟩

/-- Constructs delimit themselves. A call on fresh tokens that succeeds gives the same construct and
reads as many tokens in front of any others, except that an expression is followed by no operator,
no point and no opening parenthesis. So fields, methods and statements are no proper beginnings of
constructs that the same rule reads, and if the tokens are those of the lexer, of constructs that
any of these rules reads. -/
theorem constructs_delimit_themselves :
    (∀ source source' goal ts x count, Yields source goal ts x count →
      ∀ us, goal.Follows us → Yields source' goal (ts.take count ++ us) x count) ∧
    ∀ goal ∈ delimited, ∀ goal' ∈ delimited, ∀ c us : List Token,
      goal = goal' ∨ (∀ t ∈ c ++ us, t.FromSource) →
        IsConstruct goal c → IsConstruct goal' (c ++ us) → us = [] := by
  refine ⟨?followed, ?beginning⟩
  case followed =>
    intro source source' goal ts x count h us hus
    exact h.followed hus source'
  case beginning =>
    intro goal hgoal goal' hgoal' c us hc h h'
    obtain ⟨x, hx⟩ := h.followed (follows_of_delimited hgoal us)
    obtain ⟨y, hy⟩ := h'.followed (follows_of_delimited hgoal' [])
    rw [List.append_nil] at hy
    obtain rfl | hsource := hc
    · rw [hx] at hy
      cases hy
      rfl
    · exact delimited_rest (fun t ht => (hsource t ht).genuine) hgoal hgoal' hx hy

/-- A declaration is a field up to its semicolon whatever stands behind, so that no statement goes
on there. -/
theorem declaration_ends_at_semicolon :
    ∃ c us, tokenize "LET x = a; b;" = .ok (c ++ us) ∧
      Yields "LET x = a; b;" .field (c ++ us) (.field ⟨"x", false, some (.name "a")⟩) 5 ∧
      ¬IsConstruct .statement (c ++ us) := by
  have hlexed : tokenize "LET x = a; b;" =
      .ok ([⟨.identifier, "LET", 0⟩, ⟨.identifier, "x", 4⟩, ⟨.operator, "=", 6⟩,
        ⟨.identifier, "a", 8⟩, ⟨.operator, ";", 9⟩] ++
          [⟨.identifier, "b", 11⟩, ⟨.operator, ";", 12⟩]) := by decide +kernel
  have hfield : Yields "LET x = a;" .field
      [⟨.identifier, "LET", 0⟩, ⟨.identifier, "x", 4⟩, ⟨.operator, "=", 6⟩, ⟨.identifier, "a", 8⟩,
        ⟨.operator, ";", 9⟩] (.field ⟨"x", false, some (.name "a")⟩) 5 := ⟨rfl, rfl⟩
  refine ⟨_, _, hlexed, ?field, ?statement⟩
  case field => exact constructs_delimit_themselves.1 _ _ _ _ _ _ hfield _ trivial
  case statement =>
    intro hstatement
    have hnone := constructs_delimit_themselves.2 .field (by simp) .statement
      (by simp) _ _ (.inr fun t ht => ⟨_, _, hlexed, ht⟩)
      ⟨_, _, _, _, hfield, rfl⟩ hstatement
    cases hnone

end Parsing

end FrontEnd
