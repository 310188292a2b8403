import FrontEnd.Proofs.Prefix.Expression

/-!
# Prefixes of statements

How far the rules for statements look, and how they are completed where they have failed. The
header of a counting loop is read in two slots, each between two marks, so that the places where
it looks two tokens ahead lie inside a slot.
-/

namespace FrontEnd.Grammar

open Rule

variable {e e' : Rule Expression} {s s' : Rule Statement}

/-! ### The header of a loop -/

/-- A place for a binding between two marks. -/
def slot (opening : Pattern) (cause : SyntaxCause) (e : Rule Expression) (closing : Pattern)
    (cause' : SyntaxCause) : Rule (Option Binding) := do
  let _ ← expect opening cause
  let b ← binding e
  let _ ← expect closing cause'
  return b

/-- The first clause in the header of a loop. -/
def initialization (e : Rule Expression) : Rule (Option Binding) :=
  slot (.text "(") .headerOpen e (.text ";") .initializationEnd

/-- The last clause in the header of a loop. -/
def increment (e : Rule Expression) : Rule (Option Binding) :=
  slot (.text ";") .loopConditionEnd e (.text ")") .headerClose

lemma forLoop_eq (e : Rule Expression) (s : Rule Statement) :
    forLoop e s = (do
      let i ← initialization e
      let condition ← e
      let j ← increment e
      let ss ← body s
      return .forLoop i condition j ss) := by
  simp only [forLoop, initialization, increment, slot, bind_assoc, pure_bind]

/-- The rest of a place for a binding behind its opening mark. -/
def slotRest (e : Rule Expression) (closing : Pattern) (cause : SyntaxCause) :
    Rule (Option Binding) := do
  let b ← binding e
  let _ ← expect closing cause
  return b

/-- The rest of a place for a binding behind the equals sign of one. -/
def bound (e : Rule Expression) (closing : Pattern) (cause : SyntaxCause) (name : String) :
    Rule (Option Binding) := do
  let a ← e
  let _ ← expect closing cause
  return some ⟨name, a⟩

lemma slotRest_of_next {n q : Token} (hn : n.kind = .identifier) (hq : q.text = "=")
    (closing : Pattern) (cause : SyntaxCause) (us : List Token) :
    slotRest e closing cause (n :: q :: us) = bound e closing cause n.text us := by
  have hs : startsAs [.kind .identifier, .text "="] (n :: q :: us) = true := by
    simp [startsAs, hn, hq]
  have hb : binding e (n :: q :: us) = (e >>= fun a => pure (some ⟨n.text, a⟩)) us := if_pos hs
  unfold slotRest bound
  rw [bind_apply, hb, bind_apply, bind_apply]
  cases e us with
  | ok a middle => rfl
  | error problem middle => rfl

lemma slotRest_of_not_next {ts : List Token} (h : ¬BindingNext ts) (closing : Pattern)
    (cause : SyntaxCause) :
    slotRest e closing cause ts = (expect closing cause >>= fun _ => pure none) ts := by
  have hb : binding e ts = .ok none ts := by
    unfold binding
    split
    · next n q us =>
      refine if_neg fun hs => h ⟨n, q, us, rfl, ?_⟩
      simpa [startsAs] using hs
    · rfl
  exact bind_of_ok hb _

lemma lookahead_bound (he : Lookahead e e' AfterExpression) (closing : Pattern)
    (cause : SyntaxCause) (name : String) :
    Lookahead (bound e closing cause name) (bound e' closing cause name) fun _ _ => True :=
  lookahead_bind_reads he
    (fun a => lookahead_expect_pure closing cause (some (⟨name, a⟩ : Binding)) _)
    fun _ => reads_expect_pure _ _ _

lemma slotRest_ok (he : Lookahead e e' AfterExpression) {closing : Pattern} {cause : SyntaxCause}
    {c rest c' rest' : List Token} {b : Option Binding}
    (h : slotRest e closing cause (c ++ rest) = .ok b rest) (hc : Alike c c')
    (hrest : Agree 1 rest rest' ∨ ∀ t ∈ rest'.head?, t.text ≠ "=") :
    slotRest e' closing cause (c' ++ rest') = .ok b rest' := by
  have hbound := lookahead_bound he closing cause
  by_cases hnext : BindingNext (c ++ rest)
  · obtain ⟨n, q, us, hts, hn, hq⟩ := hnext
    rw [hts, slotRest_of_next hn hq] at h
    have hsuffix := leaves_ok (hbound n.text).leaves h
    obtain ⟨c₁, rfl, hus⟩ := first_read hts (hsuffix.trans (List.suffix_cons q us))
    obtain ⟨c₂, rfl, rfl⟩ := first_read hus.symm hsuffix
    obtain ⟨n', c₁', rfl, hnn, hc⟩ := hc.cons
    obtain ⟨q', c₂', rfl, hqq, hc⟩ := hc.cons
    simp only [Token.look, Prod.mk.injEq] at hnn hqq
    rw [List.cons_append, List.cons_append, slotRest_of_next (hnn.1 ▸ hn) (hqq.2 ▸ hq), ← hnn.2]
    exact (hbound n.text).ok h hc (.inr trivial)
  · rw [slotRest_of_not_next hnext] at h
    obtain ⟨u, middle, hu, hb⟩ := bind_ok.mp h
    injection hb with hb hmiddle
    subst hb hmiddle
    obtain ⟨hts, hp⟩ := expect_ok.mp hu
    obtain ⟨c₂, rfl, hnil⟩ := first_read hts (List.suffix_refl _)
    obtain rfl := List.append_left_eq_self.mp hnil.symm
    obtain ⟨u', c₂', rfl, huu, hnil⟩ := hc.cons
    obtain rfl := hnil.nil
    have hnext' : ¬BindingNext (u' :: rest') := by
      rintro ⟨n, q, us, hcons, hn, hq⟩
      cases hcons
      simp only [Token.look, Prod.mk.injEq] at huu
      obtain hagree | hfollow := hrest
      · obtain ⟨v, hv, hvq⟩ := hagree.symm.head (t := q) rfl
        simp only [Token.look, Prod.mk.injEq] at hvq
        cases middle with
        | nil => cases hv
        | cons w ws =>
          cases hv
          exact hnext ⟨u, v, ws, rfl, huu.1 ▸ hn, hvq.2 ▸ hq⟩
      · exact hfollow q rfl hq
    rw [List.singleton_append, slotRest_of_not_next hnext']
    exact bind_of_ok (expect_of (by rw [← closing.accepts_congr huu, hp]) cause rest') _

/-- The marks of the two places for a binding, by which their failures are told. -/
def BindingMarks (opening : Pattern) (cause : SyntaxCause) : Prop :=
  (cause = .initializationEnd ∧ opening = .text "(") ∨
    (cause = .headerClose ∧ opening = .text ";")

lemma slotRest_error (he : Lookahead e e' AfterExpression) {closing : Pattern}
    {cause cause' : SyntaxCause} (hcause : cause' ≠ .nestingTooDeep) {o : Token}
    (ho : ∀ rest : List Token, (∃ n ∈ rest.head?, n.kind = .identifier) → ¬BindingNext rest →
      AtBinding cause [o] rest) {c rest c' rest' : List Token}
    (h : slotRest e closing cause (c ++ rest) = .error (.syntactic cause') rest)
    (hc : Alike c c') (hrest : Forced cause' ([o] ++ c) rest rest') :
    slotRest e' closing cause (c' ++ rest') = .error (.syntactic cause') rest' := by
  have hbound := lookahead_bound he closing cause
  by_cases hnext : BindingNext (c ++ rest)
  · obtain ⟨n, q, us, hts, hn, hq⟩ := hnext
    rw [hts, slotRest_of_next hn hq] at h
    have hsuffix := leaves_error (hbound n.text).leaves h
    obtain ⟨c₁, rfl, hus⟩ := first_read hts (hsuffix.trans (List.suffix_cons q us))
    obtain ⟨c₂, rfl, rfl⟩ := first_read hus.symm hsuffix
    obtain ⟨n', c₁', rfl, hnn, hc⟩ := hc.cons
    obtain ⟨q', c₂', rfl, hqq, hc⟩ := hc.cons
    simp only [Token.look, Prod.mk.injEq] at hnn hqq
    rw [List.cons_append, List.cons_append, slotRest_of_next (hnn.1 ▸ hn) (hqq.2 ▸ hq), ← hnn.2]
    have hforced : Forced cause' ([o, n, q] ++ c₂) rest rest' := hrest
    exact (hbound n.text).error hcause h hc hforced.of_append
  · rw [slotRest_of_not_next hnext] at h
    obtain hno | ⟨u, middle, -, hb⟩ := bind_error.mp h
    · obtain ⟨hproblem, hread, -⟩ := expect_error.mp hno
      injection hproblem with hproblem
      subst hproblem
      obtain rfl := List.append_left_eq_self.mp hread
      have hnext' : ¬BindingNext rest' := by
        by_cases hn : ∃ n ∈ rest.head?, n.kind = .identifier
        -- Behind a name an equals sign would change everything, so two tokens have to agree.
        · intro hb
          exact hnext (hb.congr (hrest.2 (ho rest hn hnext)).symm)
        · refine not_bindingNext_of_head fun u hu hk => ?_
          obtain ⟨t, ht, htu⟩ := hrest.1.symm.head hu
          simp only [Token.look, Prod.mk.injEq] at htu
          exact hn ⟨t, ht, htu.1 ▸ hk⟩
      have hno' := expect_error_congr hno hc hrest.1
      rw [hc.nil, List.nil_append] at hno' ⊢
      rw [slotRest_of_not_next hnext', bind_apply, hno']
    · cases hb

lemma leaves_slotRest (h : Leaves e) (closing : Pattern) (cause : SyntaxCause) :
    Leaves (slotRest e closing cause) :=
  leaves_bind (leaves_binding h) fun _ => leaves_bind (leaves_expect _ _) fun _ => leaves_pure _

lemma leaves_slot (h : Leaves e) (opening closing : Pattern) (cause cause' : SyntaxCause) :
    Leaves (slot opening cause e closing cause') :=
  leaves_bind (leaves_expect _ _) fun _ => leaves_slotRest h closing cause'

lemma atBinding_of_marks {opening : Pattern} {cause : SyntaxCause}
    (hmarks : BindingMarks opening cause) {o : Token} (ho : opening.accepts o = true)
    {rest : List Token} (hn : ∃ n ∈ rest.head?, n.kind = .identifier) (hb : ¬BindingNext rest) :
    AtBinding cause [o] rest := by
  obtain ⟨rfl, rfl⟩ | ⟨rfl, rfl⟩ := hmarks
  · exact ⟨.inl ⟨rfl, o, rfl, by simpa using ho⟩, hn, hb⟩
  · exact ⟨.inr ⟨rfl, o, rfl, by simpa using ho⟩, hn, hb⟩

lemma lookahead_slot (he : Lookahead e e' AfterExpression) {opening closing : Pattern}
    {cause cause' : SyntaxCause} (hmarks : BindingMarks opening cause') :
    Lookahead (slot opening cause e closing cause') (slot opening cause e' closing cause')
      fun _ U => ∀ t ∈ U.head?, t.text ≠ "=" where
  leaves := leaves_slot he.leaves opening closing cause cause'
  ok := by
    intro c rest b h c' rest' hc hrest
    obtain ⟨o, middle, ho, hb⟩ := bind_ok.mp h
    obtain ⟨hts, hp⟩ := expect_ok.mp ho
    obtain ⟨c₂, rfl, rfl⟩ := first_read hts (leaves_ok (leaves_slotRest he.leaves _ _) hb)
    obtain ⟨o', c₂', rfl, hoo, hc⟩ := hc.cons
    refine (bind_of_ok (expect_of (by rw [← opening.accepts_congr hoo, hp]) cause _) _).trans ?_
    exact slotRest_ok he hb hc hrest
  error := by
    intro c rest cause'' hcause h c' rest' hc hrest
    obtain hno | ⟨o, middle, ho, hb⟩ := bind_error.mp h
    · exact bind_error.mpr (.inl (expect_error_congr hno hc hrest.1))
    · obtain ⟨hts, hp⟩ := expect_ok.mp ho
      obtain ⟨c₂, rfl, rfl⟩ := first_read hts (leaves_error (leaves_slotRest he.leaves _ _) hb)
      obtain ⟨o', c₂', rfl, hoo, hc⟩ := hc.cons
      refine (bind_of_ok (expect_of (by rw [← opening.accepts_congr hoo, hp]) cause _) _).trans ?_
      exact slotRest_error he hcause (fun _ => atBinding_of_marks hmarks hp) hb hc hrest

/-! ### Statements -/

/-- The tokens that may follow a construct with a mark or a keyword at its end. -/
abbrev Anything {α : Type} : α → List Token → Prop := fun _ _ => True

lemma lookahead_initializer (he : Lookahead e e' AfterExpression) :
    Lookahead (initializer e) (initializer e')
      fun _ U => Stops 0 U ∧ ∀ t ∈ U.head?, t.text ≠ "=" := by
  refine (lookahead_behind (.text "=") he).mono fun o U hU => ?_
  cases o with
  | none => exact fun t ht => not_accepts_text_of (hU.2 t ht)
  | some a => exact hU.1

lemma lookahead_declaration (he : Lookahead e e' AfterExpression) :
    Lookahead (declaration e) (declaration e') Anything := by
  have hreads : ∀ n, Reads (do
      let v ← initializer e
      let _ ← expect (.text ";") .declarationEnd
      return Statement.declaration n v) :=
    fun n => reads_bind_right (leaves_initializer he.leaves) fun v => reads_expect_pure _ _ _
  exact lookahead_bind_reads (lookahead_name _ Anything) (fun n => lookahead_bind_reads
    (lookahead_initializer he) (fun v => lookahead_expect_pure _ _ _ _)
    fun v => reads_expect_pure _ _ _) hreads

/-- The next statement where no closing keyword is next. -/
def blockStatement (cause : SyntaxCause) (s : Rule Statement) : Rule (Option Statement) := do
  if ← atEnd then
    fail cause
  else
    let a ← s
    return some a

lemma reads_blockStatement (cause : SyntaxCause) (hr : Reads s) :
    Reads (blockStatement cause s) := by
  refine reads_bind_right leaves_atEnd fun b => ?_
  cases b with
  | true => exact reads_fail _
  | false => exact reads_bind_left hr fun _ => leaves_pure _

lemma lookahead_blockStatement (cause : SyntaxCause) (hs : Lookahead s s' Anything)
    (hr : Reads s) : Lookahead (blockStatement cause s) (blockStatement cause s') Anything := by
  refine lookahead_bind_reads lookahead_atEnd (fun b => lookahead_if b (lookahead_fail _ _)
    (lookahead_then_pure some hs fun _ _ _ => trivial)) fun b => ?_
  cases b with
  | true => exact reads_fail _
  | false => exact reads_bind_left hr fun _ => leaves_pure _

/-- That a closing keyword is next. -/
abbrev ClosingNext (closing : List String) (ts : List Token) : Prop :=
  (ts.head?.any fun t => closing.contains t.text) = true

lemma lookahead_blockItem (closing : List String) (cause : SyntaxCause)
    (hs : Lookahead s s' Anything) (hr : Reads s) :
    Lookahead (blockItem closing cause s) (blockItem closing cause s')
      fun o U => o = none → ClosingNext closing U := by
  refine lookahead_bind (S := fun _ _ _ => True) (lookahead_aheadOneOf closing)
    (fun b => lookahead_if b (lookahead_pure none _) (lookahead_blockStatement cause hs hr)) ?_
  intro b ts o rest ho U hU
  cases b with
  | true =>
    injection ho with ho _
    exact ⟨trivial, .inr (hU ho.symm)⟩
  | false => exact ⟨trivial, .inl (reads_blockStatement cause hr ts o rest ho)⟩

lemma lookahead_block (closing : List String) (cause : SyntaxCause)
    (hs : Lookahead s s' Anything) (hr : Reads s) (hr' : Reads s') :
    Lookahead (block closing cause s) (block closing cause s')
      fun _ U => ClosingNext closing U := by
  have hmany := lookahead_many (finds_blockItem closing cause hr)
    (finds_blockItem closing cause hr') (lookahead_blockItem closing cause hs hr)
    fun _ _ _ h => by cases h
  exact hmany.mono fun _ _ hU _ => hU

lemma lookahead_body (hs : Lookahead s s' Anything) (hr : Reads s) (hr' : Reads s') :
    Lookahead (body s) (body s') Anything :=
  lookahead_bind_reads (lookahead_block _ _ hs hr hr') (fun ss => lookahead_expect_pure _ _ ss _)
    fun _ => reads_expect_pure _ _ _

lemma reads_body (hl : Leaves s) : Reads (body s) :=
  reads_bind_right (leaves_block _ _ hl) fun _ => reads_expect_pure _ _ _

lemma lookahead_elsePart (hs : Lookahead s s' Anything) (hr : Reads s) (hr' : Reads s') :
    Lookahead (elsePart s) (elsePart s') fun _ U => ClosingNext ["END"] U := by
  refine lookahead_accept_else (lookahead_block _ _ hs hr hr') (lookahead_pure [] _) (.inr ?_)
  intro ss U hU t ht
  rw [ClosingNext, Option.mem_def.mp ht] at hU
  exact not_accepts_text_of (by simp_all)

lemma lookahead_branch (he : Lookahead e e' AfterExpression) (hs : Lookahead s s' Anything)
    (hr : Reads s) (hr' : Reads s') : Lookahead (branch e s) (branch e' s') Anything := by
  have hreads : ∀ (c : Expression) (yes : List Statement), Reads (do
      let no ← elsePart s
      let _ ← expect (.text "END") .blockEnd
      return Statement.branch c yes no) :=
    fun c yes => reads_bind_right (leaves_elsePart hs.leaves) fun no => reads_expect_pure _ _ _
  have htail : ∀ c yes, Lookahead (do
      let no ← elsePart s
      let _ ← expect (.text "END") .blockEnd
      return Statement.branch c yes no) (do
      let no ← elsePart s'
      let _ ← expect (.text "END") .blockEnd
      return Statement.branch c yes no) Anything :=
    fun c yes => lookahead_bind_reads (lookahead_elsePart hs hr hr')
      (fun no => lookahead_expect_pure _ _ (Statement.branch c yes no) _)
      fun no => reads_expect_pure _ _ _
  exact lookahead_bind_reads he (fun c => lookahead_expect_then _ _
    (lookahead_bind_reads (lookahead_block _ _ hs hr hr') (htail c) (hreads c)))
    fun c => reads_bind_left (reads_expect _ _) fun _ =>
      leaves_bind (leaves_block _ _ hs.leaves) fun yes => (htail c yes).leaves

lemma lookahead_initialization (he : Lookahead e e' AfterExpression) :
    Lookahead (initialization e) (initialization e') fun _ U => ∀ t ∈ U.head?, t.text ≠ "=" :=
  lookahead_slot he (.inl ⟨rfl, rfl⟩)

lemma lookahead_increment (he : Lookahead e e' AfterExpression) :
    Lookahead (increment e) (increment e') fun _ U => ∀ t ∈ U.head?, t.text ≠ "=" :=
  lookahead_slot he (.inr ⟨rfl, rfl⟩)

lemma reads_initialization (hl : Leaves e) : Reads (initialization e) :=
  reads_bind_left (reads_expect _ _) fun _ => leaves_slotRest hl _ _

lemma reads_increment (hl : Leaves e) : Reads (increment e) :=
  reads_bind_left (reads_expect _ _) fun _ => leaves_slotRest hl _ _

lemma lookahead_forLoop (he : Lookahead e e' AfterExpression) (hre : Reads e)
    (hs : Lookahead s s' Anything) (hr : Reads s) (hr' : Reads s') :
    Lookahead (forLoop e s) (forLoop e' s') Anything := by
  rw [forLoop_eq, forLoop_eq]
  have hbody : ∀ i c j, Lookahead (body s >>= fun ss => pure (Statement.forLoop i c j ss))
      (body s' >>= fun ss => pure (Statement.forLoop i c j ss)) Anything :=
    fun i c j => lookahead_then_pure _ (lookahead_body hs hr hr') fun _ _ _ => trivial
  have hincrement : ∀ i c, Lookahead
      (increment e >>= fun j => body s >>= fun ss => pure (Statement.forLoop i c j ss))
      (increment e' >>= fun j => body s' >>= fun ss => pure (Statement.forLoop i c j ss))
      Anything :=
    fun i c => lookahead_bind_reads (lookahead_increment he) (hbody i c)
      fun j => reads_bind_left (reads_body hs.leaves) fun _ => leaves_pure _
  exact lookahead_bind_reads (lookahead_initialization he) (fun i =>
    lookahead_bind_reads he (hincrement i) fun c => reads_bind_left (reads_increment he.leaves)
      fun j => (hbody i c j).leaves) fun i => reads_bind_left hre fun c => (hincrement i c).leaves

lemma lookahead_whileLoop (he : Lookahead e e' AfterExpression) (hs : Lookahead s s' Anything)
    (hr : Reads s) (hr' : Reads s') : Lookahead (whileLoop e s) (whileLoop e' s') Anything := by
  have hbody : ∀ c, Lookahead (body s >>= fun ss => pure (Statement.whileLoop c ss))
      (body s' >>= fun ss => pure (Statement.whileLoop c ss)) Anything :=
    fun c => lookahead_then_pure _ (lookahead_body hs hr hr') fun _ _ _ => trivial
  exact lookahead_bind_reads he (fun c => lookahead_expect_then _ _ (hbody c))
    fun c => reads_bind_left (reads_expect _ _) fun _ => (hbody c).leaves

lemma lookahead_exitValue (he : Lookahead e e' AfterExpression) (hre : Reads e) :
    Lookahead (exitValue e) (exitValue e')
      fun _ U => Stops 0 U ∧ startsAs [.text ";"] U = true := by
  refine lookahead_bind (S := fun _ _ U => Stops 0 U) (lookahead_ahead _)
    (fun b => lookahead_if b (lookahead_pure none _)
      (lookahead_then_pure some he fun _ _ hU => hU)) ?_
  intro b ts o rest ho U hU
  cases b with
  | true => exact ⟨hU.1, .inr hU.2⟩
  | false =>
    have hreads := reads_bind_left hre fun a => leaves_pure (some a)
    exact ⟨hU.1, .inl (hreads ts o rest ho)⟩

lemma lookahead_exit (he : Lookahead e e' AfterExpression) (hre : Reads e) :
    Lookahead (exit e) (exit e') Anything :=
  lookahead_bind_reads (lookahead_exitValue he hre)
    (fun v => lookahead_expect_pure _ _ (Statement.exit v) _) fun _ => reads_expect_pure _ _ _

lemma reads_effectOf (hl : Leaves e) (target : Expression) : Reads (effectOf e target) := by
  refine reads_accept_else ?_ (reads_expect_pure _ _ _)
  exact leaves_bind hl fun _ => leaves_bind (leaves_expect _ _) fun _ => leaves_pure _

lemma lookahead_effect (he : Lookahead e e' AfterExpression) :
    Lookahead (effect e) (effect e') Anything := by
  refine lookahead_bind_reads he (fun target => ?_) (reads_effectOf he.leaves)
  exact lookahead_accept_else (lookahead_bind_reads he
    (fun value => lookahead_expect_pure _ _ (Statement.assignment target value) _)
    fun value => reads_expect_pure _ _ _)
    (lookahead_expect_pure _ _ (Statement.expression target) _) (.inl (reads_expect_pure _ _ _))

lemma lookahead_anyStatement (he : Lookahead e e' AfterExpression) (hre : Reads e)
    (hs : Lookahead s s' Anything) (hr : Reads s) (hr' : Reads s') :
    Lookahead (anyStatement e s) (anyStatement e' s') Anything := by
  have heffect := reads_effect he.leaves hre
  have hexit := reads_accept_else (p := .text "RETURN") (leaves_exit he.leaves) heffect
  have hwhile := reads_accept_else (p := .text "WHILE") (leaves_whileLoop he.leaves hs.leaves) hexit
  have hfor := reads_accept_else (p := .text "FOR") (leaves_forLoop he.leaves hs.leaves) hwhile
  have hif := reads_accept_else (p := .text "IF") (leaves_branch he.leaves hs.leaves) hfor
  exact lookahead_accept_else (lookahead_declaration he) (lookahead_accept_else
    (lookahead_branch he hs hr hr') (lookahead_accept_else (lookahead_forLoop he hre hs hr hr')
      (lookahead_accept_else (lookahead_whileLoop he hs hr hr') (lookahead_accept_else
        (lookahead_exit he hre) (lookahead_effect he) (.inl heffect)) (.inl hexit)) (.inl hwhile))
        (.inl hfor)) (.inl hif)

lemma lookahead_statement {d d' : Nat} (h : d ≤ d') :
    Lookahead (Grammar.statement d) (Grammar.statement d') Anything := by
  induction d generalizing d' with
  | zero => exact lookahead_nested _ _
  | succ d ih =>
    obtain ⟨n, rfl⟩ : ∃ n, d' = n + 1 := ⟨d' - 1, by omega⟩
    have hn : d ≤ n := by omega
    exact lookahead_anyStatement (lookahead_expression hn) (reads_expression d) (ih hn)
      (reads_statement d) (reads_statement n)

/-! ### Completion -/

/-- Statements whose failures can be completed at greater depth. -/
structure StatementRepairs (s s' : Rule Statement) : Prop where
  looks : Lookahead s s' Anything
  resumes : Resumes s s' (fun _ => True) (Next filler)
  reads : Reads s
  reads' : Reads s'

lemma completable_initializer (h : Repairs e e') :
    Completable (initializer e) (initializer e') (fun U => Stops 0 U ∧ NotNext (.text "=") U)
      (fun U => Stops 0 U ∧ NotNext (.text "=") U) :=
  completable_behind h.looks.leaves (h.completes.resumed.mono (fun _ hU => hU.1) fun _ hV => hV)
    fun _ hU => hU.2

/-- A value that may be missing, and the semicolon behind it. -/
lemma completable_initialized {α : Type} (h : Repairs e e') (cause : SyntaxCause)
    (g : Option Expression → α) :
    Completable (initializer e >>= fun v => expect (.text ";") cause >>= fun _ => pure (g v))
      (initializer e' >>= fun v => expect (.text ";") cause >>= fun _ => pure (g v))
      (fun _ => True) (fun _ => True) := by
  refine completable_bind (lookahead_initializer h.looks) (fun v => leaves_bind (leaves_expect _ _)
    fun _ => leaves_pure _) (completable_initializer h) (fun v => completable_mark_pure
      ";" (by decide) cause (g v) _) ?_ (fun _ _ => trivial) (.inr fun _ _ _ => trivial)
  intro v V hV
  have hstops := stops_of_next (t := mark ";") (by decide) hV
  have hno := notNext_of_next "=" (t := mark ";") (by decide) hV
  exact ⟨⟨hstops, hno⟩, hstops, fun t ht => by simpa [Pattern.accepts] using hno t ht⟩

lemma completable_declaration (h : Repairs e e') :
    Completable (declaration e) (declaration e') (fun _ => True) (fun _ => True) :=
  completable_bind (lookahead_name _ Anything) (fun _ => leaves_bind
    (leaves_initializer h.looks.leaves) fun _ => leaves_bind (leaves_expect _ _) fun _ =>
      leaves_pure _) (completable_name made_filler rfl _ fun _ => True)
    (fun n => completable_initialized h .declarationEnd (Statement.declaration n))
    (fun _ _ _ => ⟨trivial, trivial⟩) (fun _ _ => trivial) (.inl (reads_name _))

lemma closingNext_of_next {closing : List String} {t : Token} (ht : t.text ∈ closing)
    {V : List Token} (hV : Next t V) : ClosingNext closing V := by
  rw [ClosingNext, hV]
  simpa using ht

/-- What a block is completed with. -/
abbrev BlockNext (closing : List String) (V : List Token) : Prop :=
  ClosingNext closing V ∨ Next filler V

lemma resumes_blockItem {closing : List String} (hfiller : "a" ∉ closing) (cause : SyntaxCause)
    (h : StatementRepairs s s') :
    Resumes (blockItem closing cause s) (blockItem closing cause s') (ClosingNext closing)
      (BlockNext closing) := by
  intro c rest cause' hcause he
  obtain he | ⟨b, middle, hb, he⟩ := bind_error.mp he
  · cases he
  · injection hb with hb hmiddle
    subst hmiddle
    cases b with
    | true => cases he
    | false =>
      obtain he | ⟨b, middle, hend, he⟩ := bind_error.mp he
      · cases he
      · injection hend with hend hmiddle
        subst hmiddle
        cases b with
        | true =>
          -- The block may be closed here, which adds no statement.
          injection he with _ hread
          obtain rfl := List.append_left_eq_self.mp hread
          refine ⟨[], none, allMade_nil, fun U hU => ⟨fun _ => .inl hU, ?_⟩⟩
          have hyes : aheadOneOf closing U = .ok true U := by
            rw [aheadOneOf, hU]
          exact bind_of_ok hyes _
        | false =>
          obtain he | ⟨a, middle, -, he⟩ := bind_error.mp he
          · obtain ⟨E, a, hE, hrun⟩ := h.resumes _ _ _ hcause he
            refine ⟨E, some a, hE, fun U hU => ?_⟩
            obtain ⟨hnext, hstatement⟩ := hrun U trivial
            have hopen := (tests_aheadOneOf closing).completed hb fun hc => by
              rw [hnext hc]
              simpa [filler, word] using hfiller
            have hmore := tests_atEnd.completed hend fun hc => isEmpty_of_next (hnext hc)
            refine ⟨fun hc => .inr (hnext hc), ?_⟩
            refine (bind_of_ok hopen _).trans ((bind_of_ok hmore _).trans ?_)
            exact bind_of_ok hstatement _
          · cases he

lemma completable_block (closing : List String) (hfiller : "a" ∉ closing) (cause : SyntaxCause)
    (h : StatementRepairs s s') :
    Completable (block closing cause s) (block closing cause s') (ClosingNext closing)
      (BlockNext closing) := by
  refine completable_many (finds_blockItem closing cause h.reads)
    (finds_blockItem closing cause h.reads') (lookahead_blockItem closing cause h.looks h.reads)
    (resumes_blockItem hfiller cause h) (fun U hU => ?_) (fun _ hU => .inl hU)
    fun _ _ _ hno => by cases hno
  have hyes : aheadOneOf closing U = .ok true U := by
    rw [aheadOneOf, hU]
  exact bind_of_ok hyes _

lemma completable_body (h : StatementRepairs s s') :
    Completable (body s) (body s') (fun _ => True) (BlockNext ["END"]) :=
  completable_bind (lookahead_block _ _ h.looks h.reads h.reads')
    (fun ss => leaves_bind (leaves_expect _ _) fun _ => leaves_pure _)
    (completable_block _ (by decide) _ h)
    (fun ss => completable_keyword_pure "END" (by decide) _ ss _)
    (fun _ V hV => ⟨closingNext_of_next (by decide) hV, closingNext_of_next (by decide) hV⟩)
    (fun _ hV => hV) (.inr fun _ V hV => .inl (closingNext_of_next (by decide) hV))

lemma notNext_of_closing {closing : List String} {text : String} (h : text ∉ closing)
    {V : List Token} (hV : ClosingNext closing V) : NotNext (.text text) V := by
  intro t ht
  rw [ClosingNext, Option.mem_def.mp ht] at hV
  refine not_accepts_text_of ?_
  rintro rfl
  exact h (by simpa using hV)

lemma completable_elsePart (h : StatementRepairs s s') :
    Completable (elsePart s) (elsePart s') (ClosingNext ["END"]) (ClosingNext ["END"]) :=
  completable_accept_else (leaves_block _ _ h.looks.leaves)
    (completable_block _ (by decide) _ h).resumed (completable_pure [] _)
    fun _ hV => notNext_of_closing (by decide) hV

lemma leaves_expect_pure {α : Type} (p : Pattern) (cause : SyntaxCause) (a : α) :
    Leaves (expect p cause >>= fun _ => pure a) :=
  leaves_bind (leaves_expect p cause) fun _ => leaves_pure a

lemma completable_branch (h : Repairs e e') (hs : StatementRepairs s s') :
    Completable (branch e s) (branch e' s') (fun _ => True) (fun _ => True) := by
  have htail : ∀ c yes, Completable (do
      let no ← elsePart s
      let _ ← expect (.text "END") .blockEnd
      return Statement.branch c yes no) (do
      let no ← elsePart s'
      let _ ← expect (.text "END") .blockEnd
      return Statement.branch c yes no) (fun _ => True) (ClosingNext ["END"]) :=
    fun c yes => completable_bind (lookahead_elsePart hs.looks hs.reads hs.reads')
      (fun no => leaves_expect_pure _ _ _) (completable_elsePart hs)
      (fun no => completable_keyword_pure "END" (by decide) _ (Statement.branch c yes no) _)
      (fun _ V hV => ⟨closingNext_of_next (by decide) hV, closingNext_of_next (by decide) hV⟩)
      (fun _ hV => hV) (.inr fun _ V hV => closingNext_of_next (by decide) hV)
  have hleaves : ∀ c yes, Leaves (do
      let no ← elsePart s
      let _ ← expect (.text "END") .blockEnd
      return Statement.branch c yes no) :=
    fun c yes => leaves_bind (leaves_elsePart hs.looks.leaves) fun _ => leaves_expect_pure _ _ _
  have hwider : ∀ V, ClosingNext ["END"] V → ClosingNext ["ELSE", "END"] V := by
    intro V hV
    cases V with
    | nil => cases hV
    | cons t V => simp_all [ClosingNext]
  have hblock := fun c => completable_bind (S := fun _ => True)
    (lookahead_block _ _ hs.looks hs.reads hs.reads') (hleaves c)
    (completable_block ["ELSE", "END"] (by decide) .branchEnd hs) (htail c)
    (fun _ V hV => ⟨hwider V hV, hwider V hV⟩) (fun _ _ => trivial) (.inr fun _ _ _ => trivial)
  have hblockLeaves : ∀ c, Leaves (block ["ELSE", "END"] .branchEnd s >>= fun yes => do
      let no ← elsePart s
      let _ ← expect (.text "END") .blockEnd
      return Statement.branch c yes no) :=
    fun c => leaves_bind (leaves_block _ _ hs.looks.leaves) (hleaves c)
  exact completable_bind h.looks (fun c => leaves_bind (leaves_expect _ _) fun _ => hblockLeaves c)
    h.completes (fun c => completable_keyword_then "DO" (by decide) _ (hblockLeaves c) (hblock c))
    (fun _ V hV => ⟨stops_of_next (by decide) hV, stops_of_next (by decide) hV⟩)
    (fun _ _ => trivial) (.inl h.reads)

lemma completable_bound (h : Repairs e e') {closing : String} (cause : SyntaxCause)
    (hc : closing ∈ marks) (hclosing : closing ∈ closers) (name : String) :
    Completable (bound e (.text closing) cause name) (bound e' (.text closing) cause name)
      (fun _ => True) (Next filler) := by
  refine completable_bind h.looks (fun a => leaves_expect_pure _ _ _) h.completes
    (fun a => completable_mark_pure closing hc _ (some (⟨name, a⟩ : Binding)) _)
    (fun _ V hV => ?_) (fun _ hV => hV) (.inl h.reads)
  exact ⟨stops_of_next hclosing hV, stops_of_next hclosing hV⟩

/-- Behind its opening mark, a place for a binding is completed with the closing mark or with what
the binding lacks. -/
lemma completable_slotRest (h : Repairs e e') {closing : String} (cause : SyntaxCause)
    (hc : closing ∈ marks) (hclosing : closing ∈ closers) :
    Completable (slotRest e (.text closing) cause) (slotRest e' (.text closing) cause)
      (fun _ => True) (fun _ => True) := by
  have hmade : AllMade [mark closing] := allMade_cons (made_mark closing hc) allMade_nil
  have hempty : ∀ U, slotRest e' (.text closing) cause (mark closing :: U) = .ok none U := by
    intro U
    have hno : ¬BindingNext (mark closing :: U) := not_bindingNext_of_head fun t ht hk => by
      cases ht
      cases hk
    rw [slotRest_of_not_next hno]
    exact bind_of_ok (expect_of (accepts_text_of rfl) _ U) _
  constructor
  · exact ⟨[mark closing], none, hmade, fun U _ => ⟨trivial, hempty U⟩⟩
  · intro c rest cause' hcause he
    by_cases hnext : BindingNext (c ++ rest)
    · obtain ⟨n, q, us, hts, hn, hq⟩ := hnext
      rw [hts, slotRest_of_next hn hq] at he
      have hsuffix := leaves_error (lookahead_bound h.looks _ _ n.text).leaves he
      obtain ⟨c₁, rfl, hus⟩ := first_read hts (hsuffix.trans (List.suffix_cons q us))
      obtain ⟨c₂, rfl, rfl⟩ := first_read hus.symm hsuffix
      obtain ⟨E, b, hE, hrun⟩ :=
        (completable_bound h cause hc hclosing n.text).resumed _ _ _ hcause he
      refine ⟨E, b, hE, fun U _ => ⟨fun _ => trivial, ?_⟩⟩
      rw [List.cons_append, List.cons_append, slotRest_of_next hn hq]
      exact (hrun U trivial).2
    · rw [slotRest_of_not_next hnext] at he
      obtain he | ⟨u, middle, -, he⟩ := bind_error.mp he
      · obtain ⟨-, hread, -⟩ := expect_error.mp he
        obtain rfl := List.append_left_eq_self.mp hread
        exact ⟨[mark closing], none, hmade, fun U _ => ⟨fun _ => trivial, hempty U⟩⟩
      · cases he

lemma completable_slot (h : Repairs e e') {opening closing : String} {cause cause' : SyntaxCause}
    (ho : opening ∈ marks) (hc : closing ∈ marks)
    (hclosing : closing ∈ closers) :
    Completable (slot (.text opening) cause e (.text closing) cause')
      (slot (.text opening) cause e' (.text closing) cause') (fun _ => True)
      (Next (mark opening)) :=
  completable_mark_then opening ho cause (leaves_slotRest h.looks.leaves _ _)
    (completable_slotRest h cause' hc hclosing)

lemma ne_of_blockNext {V : List Token} (hV : BlockNext ["END"] V) :
    ∀ t ∈ V.head?, t.text ≠ "=" := by
  intro t ht heq
  obtain hV | hV := hV
  · rw [ClosingNext, Option.mem_def.mp ht] at hV
    simp [heq] at hV
  · rw [hV] at ht
    cases ht
    revert heq
    decide

lemma completable_forLoop (h : Repairs e e') (hs : StatementRepairs s s') :
    Completable (forLoop e s) (forLoop e' s') (fun _ => True) (fun _ => True) := by
  rw [forLoop_eq, forLoop_eq]
  have hbody := fun i c j => completable_then_pure (Statement.forLoop i c j) (completable_body hs)
  have hbodyLeaves : ∀ i c j, Leaves (body s >>= fun ss => pure (Statement.forLoop i c j ss)) :=
    fun i c j => leaves_bind (leaves_body hs.looks.leaves) fun _ => leaves_pure _
  have hlook := lookahead_increment h.looks
  have hincrement : ∀ i c, Completable
      (increment e >>= fun j => body s >>= fun ss => pure (Statement.forLoop i c j ss))
      (increment e' >>= fun j => body s' >>= fun ss => pure (Statement.forLoop i c j ss))
      (fun _ => True) (Next (mark ";")) :=
    fun i c => completable_bind hlook (hbodyLeaves i c)
      (completable_slot h (by decide) (by decide) (by decide)) (hbody i c)
      (fun j V hV => ⟨trivial, ne_of_blockNext hV⟩) (fun _ hV => hV)
      (.inl (reads_increment h.looks.leaves))
  have hcondition : ∀ i, Completable (do
      let c ← e
      let j ← increment e
      let ss ← body s
      return Statement.forLoop i c j ss) (do
      let c ← e'
      let j ← increment e'
      let ss ← body s'
      return Statement.forLoop i c j ss) (fun _ => True) (Next filler) :=
    fun i => completable_bind h.looks (fun c => leaves_bind hlook.leaves (hbodyLeaves i c))
      h.completes (hincrement i)
      (fun _ V hV => ⟨stops_of_next (by decide) hV, stops_of_next (by decide) hV⟩)
      (fun _ hV => hV) (.inl h.reads)
  refine completable_bind (lookahead_initialization h.looks) (fun i => leaves_bind h.looks.leaves
    fun c => leaves_bind hlook.leaves (hbodyLeaves i c))
    (completable_slot h (by decide) (by decide) (by decide)) hcondition
    (fun _ V hV => ⟨trivial, fun t ht => ?_⟩) (fun _ _ => trivial)
    (.inl (reads_initialization h.looks.leaves))
  rw [hV] at ht
  cases ht
  decide

lemma completable_whileLoop (h : Repairs e e') (hs : StatementRepairs s s') :
    Completable (whileLoop e s) (whileLoop e' s') (fun _ => True) (fun _ => True) := by
  have hleaves : ∀ c, Leaves (body s >>= fun ss => pure (Statement.whileLoop c ss)) :=
    fun c => leaves_bind (leaves_body hs.looks.leaves) fun _ => leaves_pure _
  exact completable_bind h.looks (fun c => leaves_bind (leaves_expect _ _) fun _ => hleaves c)
    h.completes (fun c => completable_keyword_then "DO" (by decide) _ (hleaves c)
      (completable_then_pure (Statement.whileLoop c) (completable_body hs)))
    (fun _ V hV => ⟨stops_of_next (by decide) hV, stops_of_next (by decide) hV⟩)
    (fun _ _ => trivial) (.inl h.reads)

lemma completable_exitValue (h : Repairs e e') :
    Completable (exitValue e) (exitValue e')
      (fun U => Stops 0 U ∧ startsAs [.text ";"] U = true) (fun _ => True) where
  fresh := by
    refine ⟨[], none, allMade_nil, fun U hU => ⟨trivial, ?_⟩⟩
    have hyes : ahead [.text ";"] U = .ok true U := by
      rw [ahead, hU.2]
    exact bind_of_ok hyes _
  resumed := by
    have hvalue := resumes_then_pure some h.completes.resumed
    refine resumes_test (tests_ahead (.text ";")) fun b => ?_
    cases b with
    | true => exact resumes_pure none _ _ _
    | false => exact hvalue.mono (fun U hU => hU.1) fun V hV => ⟨startsAs_of_next hV _, trivial⟩

lemma completable_exit (h : Repairs e e') :
    Completable (exit e) (exit e') (fun _ => True) (fun _ => True) := by
  refine completable_bind (lookahead_exitValue h.looks h.reads) (fun v => leaves_expect_pure _ _ _)
    (completable_exitValue h) (fun v => completable_mark_pure ";" (by decide) _
      (Statement.exit v) _) (fun _ V hV => ?_) (fun _ _ => trivial) (.inr fun _ _ _ => trivial)
  have hstops := stops_of_next (t := mark ";") (by decide) hV
  have hahead : startsAs [.text ";"] V = true := startsAs_of_next hV _
  exact ⟨⟨hstops, hahead⟩, hstops, hahead⟩

lemma completable_effect (h : Repairs e e') :
    Completable (effect e) (effect e') (fun _ => True) (Next filler) := by
  have hassignment : ∀ target, Completable (do
      let value ← e
      let _ ← expect (.text ";") .assignmentEnd
      return Statement.assignment target value) (do
      let value ← e'
      let _ ← expect (.text ";") .assignmentEnd
      return Statement.assignment target value) (fun _ => True) (Next filler) :=
    fun target => completable_bind h.looks (fun value => leaves_expect_pure _ _ _) h.completes
      (fun value => completable_mark_pure ";" (by decide) _
        (Statement.assignment target value) _)
      (fun _ V hV => ⟨stops_of_next (by decide) hV, stops_of_next (by decide) hV⟩)
      (fun _ hV => hV) (.inl h.reads)
  have htail : ∀ target, Completable (effectOf e target) (effectOf e' target) (fun _ => True)
      (Next (mark ";")) :=
    fun target => completable_accept_else
      (leaves_bind h.looks.leaves fun value => leaves_expect_pure _ _ _)
      (hassignment target).resumed (completable_mark_pure ";" (by decide) _
        (Statement.expression target) _) fun _ hV => notNext_of_next _ (by decide) hV
  exact completable_bind h.looks (leaves_effectOf h.looks.leaves) h.completes htail
    (fun _ V hV => ⟨stops_of_next (by decide) hV, stops_of_next (by decide) hV⟩)
    (fun _ hV => hV) (.inl h.reads)

lemma resumes_anyStatement (h : Repairs e e') (hs : StatementRepairs s s') :
    Resumes (anyStatement e s) (anyStatement e' s') (fun _ => True) (Next filler) := by
  have hno : ∀ text, "a" ≠ text → ∀ V, Next filler V → NotNext (.text text) V :=
    fun text hne V hV => notNext_of_next _ hne hV
  have hl := h.looks.leaves
  have hls := hs.looks.leaves
  exact resumes_accept_else (leaves_declaration hl) (completable_declaration h).resumed
    (resumes_accept_else (leaves_branch hl hls) (completable_branch h hs).resumed
      (resumes_accept_else (leaves_forLoop hl hls) (completable_forLoop h hs).resumed
        (resumes_accept_else (leaves_whileLoop hl hls) (completable_whileLoop h hs).resumed
          (resumes_accept_else (leaves_exit hl) (completable_exit h).resumed
            (completable_effect h).resumed (hno "RETURN" (by decide))) (hno "WHILE" (by decide)))
          (hno "FOR" (by decide))) (hno "IF" (by decide))) (hno "LET" (by decide))

lemma repairs_statement (d : Nat) :
    StatementRepairs (Grammar.statement d) (Grammar.statement (d + 1)) := by
  induction d with
  | zero => exact ⟨lookahead_nested _ _, resumes_nested _ _ _, reads_statement 0, reads_statement 1⟩
  | succ d ih =>
    exact ⟨lookahead_statement (Nat.le_succ _), resumes_anyStatement (repairs_expression d) ih,
      reads_statement _, reads_statement _⟩

end FrontEnd.Grammar
