import FrontEnd.Proofs.Grammar.Completeness
import FrontEnd.Proofs.Prefix.Completion

/-!
# Prefixes of expressions

How far the rules for expressions look, and how they are completed where they have failed.
-/

namespace FrontEnd.Grammar

open Rule

variable {e e' : Rule Expression} {s s' : Rule Statement}

/-- The tokens that may follow an expression. -/
abbrev AfterExpression : Expression → List Token → Prop := fun _ U => Stops 0 U

lemma lookahead_accept_else {α : Type} {p : Pattern} {r r' t t' : Rule α}
    {F : α → List Token → Prop} (hr : Lookahead r r' F) (ht : Lookahead t t' F)
    (hF : Reads t ∨ ∀ a U, F a U → ∀ u ∈ U.head?, p.accepts u = false) :
    Lookahead (accept [p] >>= fun b => if b = true then r else t)
      (accept [p] >>= fun b => if b = true then r' else t') F := by
  refine lookahead_bind (lookahead_accept p) (fun b => lookahead_if b hr ht) ?_
  intro b ts a rest ha U hU
  cases b with
  | true => exact ⟨hU, .inr (.inl rfl)⟩
  | false =>
    obtain hreads | hfollow := hF
    · exact ⟨hU, .inl (hreads ts a rest ha)⟩
    · exact ⟨hU, .inr (.inr (hfollow a U hU))⟩

lemma lookahead_arguments (he : Lookahead e e' AfterExpression) (hl : Leaves e') :
    Lookahead (arguments e) (arguments e') fun _ _ => True := by
  have hmany := lookahead_many (finds_behind (.text ",") he.leaves) (finds_behind (.text ",") hl)
    ((lookahead_behind (.text ",") he).mono (G := fun _ U => Stops 0 U ∧
      ∀ t ∈ U.head?, (Pattern.text ",").accepts t = false) fun o U hU => by
        cases o with
        | none => exact hU.2
        | some a => exact hU.1) fun _ _ hU => hU
  have hreads : ∀ first, Reads (do
      let others ← many (behind (.text ",") e)
      let _ ← expect (.text ")") .argumentsEnd
      return first :: others) :=
    fun first => reads_bind_right hmany.leaves fun others => reads_expect_pure _ _ (first :: others)
  exact lookahead_accept_else (lookahead_pure [] _) (lookahead_bind_reads he (fun first =>
    lookahead_bind_reads hmany (fun others => lookahead_expect_pure _ _ (first :: others) _)
      fun others => reads_expect_pure _ _ (first :: others)) hreads)
    (.inl (reads_bind_right he.leaves hreads))

lemma lookahead_group (he : Lookahead e e' AfterExpression) :
    Lookahead (group e) (group e') fun _ _ => True :=
  lookahead_bind_reads he (fun a => lookahead_expect_pure _ _ (Expression.group a) _)
    fun _ => reads_expect_pure _ _ _

/-- The tokens that do not open an argument list. -/
abbrev AfterName : Expression → List Token → Prop := fun _ U => Stops 5 U

lemma afterName_accepts {a : Expression} {U : List Token} (h : AfterName a U) :
    ∀ t ∈ U.head?, (Pattern.text "(").accepts t = false :=
  fun t ht => not_accepts_text_of (h t ht).1

lemma lookahead_named (he : Lookahead e e' AfterExpression) (hl : Leaves e') (name : String) :
    Lookahead (named e name) (named e' name) AfterName :=
  lookahead_accept_else (lookahead_then_pure (Expression.call name) (lookahead_arguments he hl)
    fun _ _ _ => trivial) (lookahead_pure _ _) (.inr fun _ _ hU => afterName_accepts hU)

lemma lookahead_memberOf (he : Lookahead e e' AfterExpression) (hl : Leaves e') (a : Expression) :
    Lookahead (memberOf e a) (memberOf e' a) AfterName :=
  lookahead_bind_follow (lookahead_name _ fun _ _ => True) (fun member => lookahead_accept_else
    (lookahead_then_pure (Expression.methodCall a member) (lookahead_arguments he hl)
      fun _ _ _ => trivial) (lookahead_pure _ _) (.inr fun _ _ hU => afterName_accepts hU))
    fun _ _ _ _ => trivial

/-- An operand after its first token. -/
def operandAfter (e : Rule Expression) (t : Token) : Rule Expression :=
  match constant? t with
  | some (.ok value) => pure (.literal value)
  | some (.error kind) => fun ts => .error (.numeral kind) ts
  | none => if t.text = "(" then group e else named e t.text

/-- A token with which an operand begins. -/
def StartsOperand (t : Token) : Prop :=
  (constant? t).isSome = true ∨ t.text = "(" ∨ t.kind = .identifier

lemma opens_operand (e : Rule Expression) :
    Opens (operand e) StartsOperand .operand (operandAfter e) where
  begins t ts h := by
    cases hc : constant? t with
    | some v =>
      cases v with
      | ok value =>
        simp only [operand, operandAfter, hc]
        rfl
      | error kind => simp only [operand, operandAfter, hc]
    | none =>
      simp only [operand, operandAfter, hc]
      by_cases ho : t.text = "("
      · rw [if_pos ho, if_pos ho]
      · obtain hs | hs | hk := h
        · simp [hc] at hs
        · exact absurd hs ho
        · rw [if_neg ho, if_neg ho, if_pos hk]
  fails ts h := by
    cases ts with
    | nil => rfl
    | cons t ts =>
      obtain ⟨hc, hn⟩ := not_or.mp (h t rfl)
      obtain ⟨ho, hk⟩ := not_or.mp hn
      have hc : constant? t = none := by simpa using hc
      simp only [operand, hc, ho, hk, if_false]

lemma startsOperand_congr {t u : Token} (h : t.look = u.look) (ht : StartsOperand t) :
    StartsOperand u := by
  have hc := constant?_congr h
  simp only [Token.look, Prod.mk.injEq] at h
  simpa only [StartsOperand, hc, h.1, h.2] using ht

lemma operandAfter_congr {t u : Token} (h : t.look = u.look) :
    operandAfter e t = operandAfter e u := by
  have hc := constant?_congr h
  simp only [Token.look, Prod.mk.injEq] at h
  simp only [operandAfter, hc, h.2]

lemma lookahead_operandAfter (he : Lookahead e e' AfterExpression) (hl : Leaves e') (t : Token) :
    Lookahead (operandAfter e t) (operandAfter e' t) AfterName := by
  unfold operandAfter
  split
  · exact lookahead_pure _ _
  · refine ⟨fun ts => List.suffix_refl ts, ?_, ?_⟩
    · intro c rest a h
      cases h
    · intro c rest cause _ h
      cases h
  · split
    · exact (lookahead_group he).mono fun _ _ _ => trivial
    · exact lookahead_named he hl t.text

lemma lookahead_operand (he : Lookahead e e' AfterExpression) (hl : Leaves e') :
    Lookahead (operand e) (operand e') AfterName :=
  lookahead_opens (opens_operand e) (opens_operand e') (fun _ _ => startsOperand_congr)
    (lookahead_operandAfter he hl) fun _ _ => operandAfter_congr

/-- The tokens that neither open an argument list nor name a member. -/
abbrev AfterLinked : Expression → List Token → Prop := fun _ U => Stops 4 U

lemma lookahead_link (he : Lookahead e e' AfterExpression) (hl : Leaves e') (a : Expression) :
    Lookahead (link e a) (link e' a) fun _ U => Stops 4 U := by
  refine (lookahead_behind (.text ".") (lookahead_memberOf he hl a)).mono fun o U hU => ?_
  cases o with
  | none => exact fun t ht => not_accepts_text_of ((hU t ht).2.1 (by omega))
  | some b => exact hU.succ

lemma lookahead_linked (he : Lookahead e e' AfterExpression) (hl : Leaves e') :
    Lookahead (linked e) (linked e') AfterLinked :=
  lookahead_bind_follow (lookahead_operand he hl) (lookahead_repeatedly (finds_link he.leaves)
    (finds_link hl) (lookahead_link he hl) fun _ _ hU => hU) fun _ _ _ hU => hU.succ

lemma lookahead_operatorOf (k : Nat) : Lookahead (operatorOf k) (operatorOf k) fun o U =>
    o = none → Stops k U where
  leaves := leaves_operatorOf k
  ok := by
    intro c rest o h c' rest' hc hrest
    obtain ⟨p, t, rfl, hts, ht, hp⟩ | ⟨rfl, hts, hno⟩ := operatorOf_ok.mp h
    · have hread : c ++ rest = [t] ++ rest := hts
      obtain rfl := List.append_cancel_right hread
      obtain ⟨t', c', rfl, htt, hc⟩ := hc.cons
      have htext : t.text = t'.text := congrArg Prod.snd htt
      rw [hc.nil]
      exact operatorOf_ok.mpr (.inl ⟨p, t', rfl, rfl, htext ▸ ht, hp⟩)
    · obtain rfl := List.append_left_eq_self.mp hts
      rw [hc.nil]
      obtain hagree | hfollow := hrest
      · refine operatorOf_ok.mpr (.inr ⟨rfl, rfl, fun u hu p hp => ?_⟩)
        obtain ⟨t, ht, htu⟩ := hagree.symm.head hu
        have htext : u.text = t.text := congrArg Prod.snd htu
        exact hno t ht p (htext ▸ hp)
      · exact operatorOf_of_stops fun t ht => (hfollow rfl t ht).2.2
  error := by
    intro c rest cause _ h
    obtain ho | ⟨o, t, r, -, ho⟩ := operatorOf_cases k (c ++ rest)
    · rw [ho] at h
      cases h
    · rw [ho] at h
      cases h

lemma lookahead_extend {k : Nat} {item item' : Rule Expression}
    (h : Lookahead item item' fun _ U => Stops (k + 1) U) (left : Expression) :
    Lookahead (extend k item left) (extend k item' left) fun _ U => Stops k U := by
  refine lookahead_bind_follow (lookahead_operatorOf k) (fun o => ?_) fun _ _ _ hU _ => hU
  cases o with
  | none => exact lookahead_pure none _
  | some p => exact lookahead_then_pure _ h fun _ _ hU => hU.succ

lemma lookahead_chain {k : Nat} {item item' : Rule Expression}
    (h : Lookahead item item' fun _ U => Stops (k + 1) U) (hl : Leaves item') :
    Lookahead (chain k item) (chain k item') fun _ U => Stops k U :=
  lookahead_bind_follow h (lookahead_repeatedly (finds_extend k h.leaves) (finds_extend k hl)
    (lookahead_extend h) fun _ _ hU => hU) fun _ _ _ hU => hU.succ

lemma lookahead_ladder (he : Lookahead e e' AfterExpression) (hl : Leaves e') {n : Nat}
    (hn : n ≤ 4) : Lookahead (ladder e n) (ladder e' n) fun _ U => Stops (4 - n) U := by
  induction n with
  | zero => exact lookahead_linked he hl
  | succ n ih =>
    have hitem : Lookahead (ladder e n) (ladder e' n) fun _ U => Stops (3 - n + 1) U := by
      have hlevel : 3 - n + 1 = 4 - n := by omega
      rw [hlevel]
      exact ih (by omega)
    have hlevel : 4 - (n + 1) = 3 - n := by omega
    rw [hlevel]
    exact lookahead_chain hitem (leaves_ladder hl n)

/-- More depth makes no difference unless too little of it is a problem. -/
lemma lookahead_expression {d d' : Nat} (h : d ≤ d') :
    Lookahead (Grammar.expression d) (Grammar.expression d') AfterExpression := by
  induction d generalizing d' with
  | zero => exact lookahead_nested _ _
  | succ d ih =>
    obtain ⟨n, rfl⟩ : ∃ n, d' = n + 1 := ⟨d' - 1, by omega⟩
    exact lookahead_ladder (ih (show d ≤ n by omega)) (leaves_expression n) (Nat.le_refl 4)

/-! ### Completion -/

/-- A name that stands for any missing expression. -/
def filler : Token := word "a"

/-- That a token is next. -/
abbrev Next (t : Token) (V : List Token) : Prop := V.head? = some t

lemma stops_of_next {t : Token} (ht : t.text ∈ closers) {V : List Token}
    (hV : Next t V) : Stops 0 V := by
  cases V with
  | nil => cases hV
  | cons u V =>
    cases hV
    exact stops_closing rfl ht V

lemma notNext_of_next (text : String) {t : Token} (ht : t.text ≠ text) {V : List Token}
    (hV : Next t V) : NotNext (.text text) V := by
  intro u hu
  rw [hV] at hu
  cases hu
  exact not_accepts_text_of ht

lemma startsAs_of_next {t : Token} {V : List Token} (hV : Next t V) (p : Pattern) :
    startsAs [p] V = p.accepts t := by
  cases V with
  | nil => cases hV
  | cons u V =>
    cases hV
    simp [startsAs]

lemma isEmpty_of_next {t : Token} {V : List Token} (hV : Next t V) : V.isEmpty = false := by
  cases V with
  | nil => cases hV
  | cons u V => rfl

lemma genuine_filler : filler.Genuine := spells_of_token rfl

lemma made_filler : filler.Made := Token.Genuine.made genuine_filler rfl

lemma completable_mark_then {α : Type} (s : String) (hs : s ∈ marks) (cause : SyntaxCause)
    {k k' : Rule α} {F S : List Token → Prop} (hl : Leaves k) (hk : Completable k k' F S) :
    Completable (expect (.text s) cause >>= fun _ => k) (expect (.text s) cause >>= fun _ => k') F
      (Next (mark s)) :=
  completable_expect_then (made_mark s hs) (accepts_text_of rfl) cause hl hk

lemma completable_keyword_then {α : Type} (s : String) (hs : s ∈ keywords) (cause : SyntaxCause)
    {k k' : Rule α} {F S : List Token → Prop} (hl : Leaves k) (hk : Completable k k' F S) :
    Completable (expect (.text s) cause >>= fun _ => k) (expect (.text s) cause >>= fun _ => k') F
      (Next (word s)) :=
  completable_expect_then (made_keyword s hs) (accepts_text_of rfl) cause hl hk

lemma completable_mark_pure {α : Type} (s : String) (hs : s ∈ marks) (cause : SyntaxCause) (a : α)
    (F : List Token → Prop) :
    Completable (expect (.text s) cause >>= fun _ => pure a)
      (expect (.text s) cause >>= fun _ => pure a) F (Next (mark s)) :=
  completable_mark_then s hs cause (leaves_pure a) (completable_pure a F)

lemma completable_keyword_pure {α : Type} (s : String) (hs : s ∈ keywords) (cause : SyntaxCause)
    (a : α) (F : List Token → Prop) :
    Completable (expect (.text s) cause >>= fun _ => pure a)
      (expect (.text s) cause >>= fun _ => pure a) F (Next (word s)) :=
  completable_keyword_then s hs cause (leaves_pure a) (completable_pure a F)

lemma stops_filler {k : Nat} {V : List Token} (h : Next filler V) : Stops k V := by
  cases V with
  | nil => cases h
  | cons t V =>
    cases h
    exact stops_cons k (by decide) (by decide) rfl V

lemma expression_filler (d : Nat) {U : List Token} (hU : Stops 0 U) :
    Grammar.expression (d + 1) (filler :: U) = .ok (.name "a") U := by
  have hoperand : Reserved (.level 4) [filler] (.name "a") :=
    .secondary (.primary (.name ⟨rfl, by decide⟩))
  have hlevel : Reserved (.level 0) [filler] (.name "a") :=
    derives_lower (Nat.zero_le 4) (Nat.le_refl 4) hoperand
  have hsound : Sound [filler] := by
    intro t ht
    rw [List.mem_singleton] at ht
    subst ht
    exact ⟨genuine_filler, fun hk => by cases hk⟩
  refine recognizes_of_derives (.expression hlevel) hsound (d + 1) ?_ U hU
  simp [Expression.nesting, Expression.inner]

lemma operand_filler {U : List Token} (hU : Stops 5 U) :
    operand e (filler :: U) = .ok (.name "a") U := by
  rw [operand_of_name genuine_filler ⟨rfl, by decide⟩]
  exact named_of_not (fun t ht => (hU t ht).1) "a"

/-- Expressions whose failures can be completed at greater depth. -/
structure Repairs (e e' : Rule Expression) : Prop where
  looks : Lookahead e e' AfterExpression
  completes : Completable e e' (Stops 0) (Next filler)
  leaves' : Leaves e'
  reads : Reads e

lemma completable_arguments (h : Repairs e e') :
    Completable (arguments e) (arguments e') (fun _ => True) (Next filler) := by
  have hlook := (lookahead_behind (.text ",") h.looks).mono (G := fun _ U => Stops 0 U ∧
    NotNext (.text ",") U) fun o U hU => by
      cases o with
      | none => exact hU.2
      | some a => exact hU.1
  have hitem : Resumes (behind (.text ",") e) (behind (.text ",") e')
      (fun U => Stops 0 U ∧ NotNext (.text ",") U)
      (fun U => Stops 0 U ∧ NotNext (.text ",") U) :=
    (completable_behind h.looks.leaves (h.completes.resumed.mono (fun _ hU => hU.1) fun _ hV => hV)
      fun _ hU => hU.2).resumed
  have hmany := completable_many (finds_behind (.text ",") h.looks.leaves)
    (finds_behind (.text ",") h.leaves') hlook hitem (fun U hU => behind_of_not e' hU.2)
    (fun _ hU => hU) fun _ _ hV => hV
  have hlookmany := lookahead_many (finds_behind (.text ",") h.looks.leaves)
    (finds_behind (.text ",") h.leaves') hlook fun _ _ hU => hU
  have hothers : ∀ first, Completable (do
      let others ← many (behind (.text ",") e)
      let _ ← expect (.text ")") .argumentsEnd
      return first :: others) (do
      let others ← many (behind (.text ",") e')
      let _ ← expect (.text ")") .argumentsEnd
      return first :: others) (fun _ => True) (fun V => Stops 0 V) := by
    intro first
    refine completable_bind hlookmany (fun others => leaves_bind (leaves_expect _ _) fun _ =>
      leaves_pure _) hmany (fun others => completable_mark_pure ")" (by decide) _
        (first :: others) _) ?_ (fun _ hV => hV.1) (.inr fun _ V hV => stops_of_next (by decide) hV)
    intro others V hV
    have hfollow : Stops 0 V ∧ NotNext (.text ",") V :=
      ⟨stops_of_next (by decide) hV, notNext_of_next _ (by decide) hV⟩
    exact ⟨hfollow, hfollow⟩
  refine completable_accept_else (leaves_pure _) (completable_pure [] (fun _ => True)).resumed ?_
    fun V hV => notNext_of_next _ (by decide) hV
  exact completable_bind h.looks (fun first => leaves_bind hlookmany.leaves fun _ =>
    leaves_bind (leaves_expect _ _) fun _ => leaves_pure _) h.completes hothers
    (fun _ V hV => ⟨hV, hV⟩) (fun _ hV => hV) (.inl h.reads)

lemma completable_group (h : Repairs e e') :
    Completable (group e) (group e') (fun _ => True) (Next filler) :=
  completable_bind h.looks (fun _ => leaves_bind (leaves_expect _ _) fun _ => leaves_pure _)
    h.completes (fun a => completable_mark_pure ")" (by decide) _ (Expression.group a) _)
    (fun _ V hV => ⟨stops_of_next (by decide) hV, stops_of_next (by decide) hV⟩) (fun _ hV => hV)
    (.inl h.reads)

lemma notNext_open {U : List Token} (h : Stops 5 U) : NotNext (.text "(") U :=
  fun t ht => not_accepts_text_of (h t ht).1

lemma completable_named (h : Repairs e e') (name : String) :
    Completable (named e name) (named e' name) (Stops 5) (Stops 5) :=
  completable_accept_else (leaves_bind (leaves_arguments h.looks.leaves) fun _ => leaves_pure _)
    (resumes_then_pure _ ((completable_arguments h).resumed.mono (fun _ _ => trivial)
      fun _ hV => hV)) (completable_pure _ _) fun _ hV => notNext_open hV

lemma completable_memberOf (h : Repairs e e') (a : Expression) :
    Completable (memberOf e a) (memberOf e' a) (Stops 5) (Next filler) := by
  refine completable_bind (lookahead_name _ fun _ _ => True) (fun member =>
    leaves_accept_else (leaves_bind (leaves_arguments h.looks.leaves) fun _ => leaves_pure _)
      (leaves_pure _)) (completable_name made_filler rfl _ fun _ => True) (fun member =>
    completable_accept_else (leaves_bind (leaves_arguments h.looks.leaves) fun _ => leaves_pure _)
      (resumes_then_pure (Expression.methodCall a member) ((completable_arguments h).resumed.mono
        (fun _ _ => trivial) fun _ hV => hV)) (completable_pure _ _) fun _ hV => notNext_open hV)
    (fun _ _ _ => ⟨trivial, trivial⟩) (fun _ hV => hV) (.inl (reads_name _))

lemma resumes_operandAfter (h : Repairs e e') (t : Token) :
    Resumes (operandAfter e t) (operandAfter e' t) (Stops 5) (fun _ => True) := by
  unfold operandAfter
  split
  · exact (completable_pure _ _).resumed.mono (fun _ hU => hU) fun _ _ => trivial
  · intro c rest cause _ he
    cases he
  · split
    · exact (completable_group h).resumed.mono (fun _ _ => trivial) fun _ _ => trivial
    · exact (completable_named h _).resumed.mono (fun _ hU => hU) fun _ _ => trivial

lemma completable_operand (h : Repairs e e') :
    Completable (operand e) (operand e') (Stops 5) (Next filler) where
  fresh := ⟨[filler], .name "a", allMade_cons made_filler allMade_nil,
    fun _ hU => ⟨rfl, operand_filler hU⟩⟩
  resumed := by
    intro c rest cause hcause he
    obtain ⟨t, us, hts, ht, hrun⟩ | ⟨-, hrun⟩ := (opens_operand e).cases (c ++ rest)
    · rw [hrun] at he
      obtain ⟨c₂, rfl, rfl⟩ :=
        first_read hts (leaves_error (lookahead_operandAfter h.looks h.leaves' t).leaves he)
      obtain ⟨E, a, hE, hrest⟩ := resumes_operandAfter h t _ _ _ hcause he
      refine ⟨E, a, hE, fun U hU => ⟨fun hc => absurd hc (List.cons_ne_nil t c₂), ?_⟩⟩
      rw [List.cons_append, (opens_operand e').begins t _ ht]
      exact (hrest U hU).2
    · rw [hrun] at he
      injection he with _ hread
      obtain rfl := List.append_left_eq_self.mp hread
      exact ⟨[filler], .name "a", allMade_cons made_filler allMade_nil,
        fun _ hU => ⟨fun _ => rfl, operand_filler hU⟩⟩

lemma resumes_link (h : Repairs e e') (a : Expression) :
    Resumes (link e a) (link e' a) (Stops 4) (Stops 4) := by
  have hmember : Resumes (memberOf e a) (memberOf e' a) (Stops 4) (Next filler) :=
    (completable_memberOf h a).resumed.mono (fun _ hU => hU.succ) fun _ hV => hV
  exact (completable_behind (leaves_memberOf h.looks.leaves a) hmember fun U hU t ht =>
    not_accepts_text_of ((hU t ht).2.1 (by omega))).resumed

lemma completable_linked (h : Repairs e e') :
    Completable (linked e) (linked e') (Stops 4) (Next filler) := by
  have hlinks := completable_repeatedly (finds_link h.looks.leaves) (finds_link h.leaves')
    (lookahead_link h.looks h.leaves') (resumes_link h)
    (fun a U hU => link_of_not (fun t ht => (hU t ht).2.1 (by omega)) a) (fun _ hU => hU)
    fun _ _ hV => hV
  exact completable_bind (lookahead_operand h.looks h.leaves')
    (fun a => leaves_repeatedly (leaves_link h.looks.leaves) a) (completable_operand h) hlinks
    (fun _ _ hV => ⟨hV.succ, hV.succ⟩) (fun _ hV => hV) (.inl (reads_operand h.looks.leaves))

lemma completable_operatorOf (k : Nat) :
    Completable (operatorOf k) (operatorOf k) (Stops k) (Stops k) where
  fresh := ⟨[], none, allMade_nil, fun U hU => ⟨hU, operatorOf_of_stops fun t ht => (hU t ht).2.2⟩⟩
  resumed := by
    intro c rest cause hcause he
    obtain ho | ⟨o, t, r, -, ho⟩ := operatorOf_cases k (c ++ rest)
    · rw [ho] at he
      cases he
    · rw [ho] at he
      cases he

lemma resumes_extend {k : Nat} {item item' : Rule Expression} (hl : Leaves item)
    (h : Completable item item' (Stops (k + 1)) (Next filler)) (left : Expression) :
    Resumes (extend k item left) (extend k item' left) (Stops k) (Stops k) := by
  refine (completable_bind (lookahead_operatorOf k) (fun o => ?_)
    (completable_operatorOf k) (fun o => ?_)
    (fun _ V (hV : Stops k V) => ⟨hV, fun _ => hV⟩) (fun _ hV => hV)
    (.inr fun _ _ hV => hV)).resumed
  · cases o with
    | none => exact leaves_pure _
    | some p => exact leaves_bind hl fun _ => leaves_pure _
  · cases o with
    | none => exact completable_pure none (Stops k)
    | some p =>
      exact (completable_then_pure _ h).mono (fun _ hU => hU.succ) fun _ hV => stops_filler hV

lemma completable_chain {k : Nat} {item item' : Rule Expression}
    (hlook : Lookahead item item' fun _ U => Stops (k + 1) U) (hl' : Leaves item')
    (hr : Reads item) (h : Completable item item' (Stops (k + 1)) (Next filler)) :
    Completable (chain k item) (chain k item') (Stops k) (Next filler) := by
  have hstop : ∀ a U, Stops k U → extend k item' a U = .ok none U := fun a U hU =>
    bind_of_ok (operatorOf_of_stops fun t ht => (hU t ht).2.2) _
  have hmore := completable_repeatedly (finds_extend k hlook.leaves) (finds_extend k hl')
    (lookahead_extend hlook) (resumes_extend hlook.leaves h) hstop (fun _ hU => hU)
    fun _ _ hV => hV
  exact completable_bind hlook (fun a => leaves_repeatedly (leaves_extend k hlook.leaves) a) h hmore
    (fun _ _ hV => ⟨hV.succ, hV.succ⟩) (fun _ hV => hV) (.inl hr)

lemma reads_ladder (hl : Leaves e) (n : Nat) : Reads (ladder e n) := by
  induction n with
  | zero => exact reads_linked hl
  | succ n ih => exact reads_chain _ (leaves_ladder hl n) ih

lemma completable_ladder (h : Repairs e e') {n : Nat} (hn : n ≤ 4) :
    Completable (ladder e n) (ladder e' n) (Stops (4 - n)) (Next filler) := by
  induction n with
  | zero => exact completable_linked h
  | succ n ih =>
    have hlevel : 4 - n = 3 - n + 1 := by omega
    have hitem := ih (by omega)
    have hlook := lookahead_ladder h.looks h.leaves' (show n ≤ 4 by omega)
    rw [hlevel] at hitem hlook
    have hnext : 4 - (n + 1) = 3 - n := by omega
    rw [hnext]
    exact completable_chain hlook (leaves_ladder h.leaves' n)
      (reads_ladder h.looks.leaves n) hitem

/-- One more level is enough to complete an expression. -/
lemma repairs_expression (d : Nat) :
    Repairs (Grammar.expression d) (Grammar.expression (d + 1)) := by
  induction d with
  | zero =>
    exact ⟨lookahead_nested _ _, ⟨⟨[filler], .name "a", allMade_cons made_filler allMade_nil,
      fun _ hU => ⟨rfl, expression_filler 0 hU⟩⟩, resumes_nested _ _ _⟩, leaves_expression 1,
      reads_expression 0⟩
  | succ d ih =>
    exact ⟨lookahead_expression (Nat.le_succ _), completable_ladder ih (Nat.le_refl 4),
      leaves_expression _, reads_expression _⟩

end FrontEnd.Grammar
