import FrontEnd.Grammar.Program
import FrontEnd.Grammar.Rule.Lemmas

/-!
# Progress of the grammar

Every rule leaves a suffix of the tokens it is given, and the rules for single constructs read at
least one of them. So does every round of a repetition that goes on, and no repetition stops for
want of rounds.
-/

namespace FrontEnd.Grammar

open Rule

variable {expression : Rule Expression} {statement : Rule Statement}

theorem leaves_arguments (h : Leaves expression) : Leaves (arguments expression) :=
  leaves_bind (leaves_accept _) fun _ => leaves_ite (leaves_pure _)
    (leaves_bind h fun _ => leaves_bind (leaves_many (leaves_behind _ h)) fun _ =>
      leaves_bind (leaves_expect _ _) fun _ => leaves_pure _)

theorem leaves_group (h : Leaves expression) : Leaves (group expression) :=
  leaves_bind h fun _ => leaves_bind (leaves_expect _ _) fun _ => leaves_pure _

theorem leaves_named (h : Leaves expression) (s : String) : Leaves (named expression s) :=
  leaves_bind (leaves_accept _) fun _ =>
    leaves_ite (leaves_bind (leaves_arguments h) fun _ => leaves_pure _) (leaves_pure _)

/-- An operand reads its first token, or none and fails. -/
theorem operand_cons (h : Leaves expression) (t : Token) (r : List Token) :
    left (operand expression (t :: r)) <:+ r ∨
      operand expression (t :: r) = .error (.syntactic .operand) (t :: r) := by
  unfold operand
  dsimp only
  split
  · exact .inl (List.suffix_refl _)
  · exact .inl (List.suffix_refl _)
  · split
    · exact .inl (leaves_group h r)
    · split
      · exact .inl (leaves_named h _ r)
      · exact .inr rfl

theorem leaves_operand (h : Leaves expression) : Leaves (operand expression) := by
  intro ts
  cases ts with
  | nil => exact List.suffix_refl _
  | cons t r =>
    rcases operand_cons h t r with ho | ho
    · exact ho.trans (List.suffix_cons _ _)
    · rw [ho]
      exact List.suffix_refl _

theorem reads_operand (h : Leaves expression) : Reads (operand expression) := by
  intro ts a rest ha
  cases ts with
  | nil => cases ha
  | cons t r =>
    rcases operand_cons h t r with ho | ho
    · rw [ha] at ho
      exact Nat.lt_succ_of_le ho.length_le
    · rw [ha] at ho
      cases ho

theorem leaves_memberOf (h : Leaves expression) (e : Expression) :
    Leaves (memberOf expression e) :=
  leaves_bind (leaves_name _) fun _ => leaves_bind (leaves_accept _) fun _ =>
    leaves_ite (leaves_bind (leaves_arguments h) fun _ => leaves_pure _) (leaves_pure _)

theorem leaves_link (h : Leaves expression) (e : Expression) : Leaves (link expression e) :=
  leaves_behind _ (leaves_memberOf h e)

theorem finds_link (h : Leaves expression) (e : Expression) : Finds (link expression e) :=
  finds_behind _ (leaves_memberOf h e)

theorem leaves_linked (h : Leaves expression) : Leaves (linked expression) :=
  leaves_bind (leaves_operand h) fun _ => leaves_repeatedly (leaves_link h) _

theorem reads_linked (h : Leaves expression) : Reads (linked expression) :=
  reads_bind_left (reads_operand h) fun _ => leaves_repeatedly (leaves_link h) _

/-- Looking for an operator reads one token, or none and finds nothing. -/
theorem operatorOf_cases (level : Nat) (ts : List Token) :
    operatorOf level ts = .ok none ts ∨
      ∃ o t r, ts = t :: r ∧ operatorOf level ts = .ok (some o) r := by
  unfold operatorOf
  cases ts with
  | nil => exact .inl rfl
  | cons t r =>
    dsimp only
    split
    · next o ho =>
      split
      · exact .inr ⟨o, t, r, rfl, rfl⟩
      · exact .inl rfl
    · exact .inl rfl

theorem leaves_operatorOf (level : Nat) : Leaves (operatorOf level) := by
  intro ts
  rcases operatorOf_cases level ts with h | ⟨o, t, r, rfl, h⟩
  · rw [h]
    exact List.suffix_refl _
  · rw [h]
    exact List.suffix_cons _ _

theorem leaves_extend (level : Nat) {item : Rule Expression} (h : Leaves item) (e : Expression) :
    Leaves (extend level item e) := by
  refine leaves_bind (leaves_operatorOf level) fun o => ?_
  cases o with
  | none => exact leaves_pure _
  | some o => exact leaves_bind h fun _ => leaves_pure _

theorem finds_extend (level : Nat) {item : Rule Expression} (h : Leaves item) (e : Expression) :
    Finds (extend level item e) := by
  intro ts a rest ha
  unfold extend at ha
  rw [bind_apply] at ha
  rcases operatorOf_cases level ts with ho | ⟨o, t, r, rfl, ho⟩
  · rw [ho] at ha
    cases ha
  · rw [ho] at ha
    exact Nat.lt_succ_of_le
      ((leaves_bind h fun _ => leaves_pure _ : Leaves (item >>= fun right =>
        pure (some (Expression.binary o e right)))).length_le ha)

theorem leaves_chain (level : Nat) {item : Rule Expression} (h : Leaves item) :
    Leaves (chain level item) :=
  leaves_bind h fun _ => leaves_repeatedly (leaves_extend level h) _

theorem reads_chain (level : Nat) {item : Rule Expression} (h : Leaves item) (hr : Reads item) :
    Reads (chain level item) :=
  reads_bind_left hr fun _ => leaves_repeatedly (leaves_extend level h) _

theorem leaves_expression (depth : Nat) : Leaves (Grammar.expression depth) := by
  induction depth with
  | zero => exact leaves_fail _
  | succ depth ih =>
    exact leaves_chain 0 (leaves_chain 1 (leaves_chain 2 (leaves_chain 3 (leaves_linked ih))))

theorem reads_expression (depth : Nat) : Reads (Grammar.expression depth) := by
  cases depth with
  | zero => exact reads_fail _
  | succ depth =>
    have h := leaves_linked (leaves_expression depth)
    have h3 := leaves_chain 3 h
    have h2 := leaves_chain 2 h3
    exact reads_chain 0 (leaves_chain 1 h2) (reads_chain 1 h2 (reads_chain 2 h3
      (reads_chain 3 h (reads_linked (leaves_expression depth)))))

theorem leaves_blockItem (closing : List String) (cause : SyntaxCause) (h : Leaves statement) :
    Leaves (blockItem closing cause statement) :=
  leaves_bind (leaves_aheadOneOf _) fun _ => leaves_ite (leaves_pure _)
    (leaves_bind leaves_atEnd fun _ => leaves_ite (leaves_fail _)
      (leaves_bind h fun _ => leaves_pure _))

theorem finds_blockItem (closing : List String) (cause : SyntaxCause) (h : Reads statement) :
    Finds (blockItem closing cause statement) := by
  intro ts s rest hs
  unfold blockItem at hs
  rw [bind_apply] at hs
  change (if _ then _ else _ : Rule (Option Statement)) ts = _ at hs
  split at hs
  · cases hs
  · rw [bind_apply] at hs
    change (if _ then _ else _ : Rule (Option Statement)) ts = _ at hs
    split at hs
    · cases hs
    · exact (reads_bind_left h fun s => leaves_pure (some s)) ts _ rest hs

theorem leaves_block (closing : List String) (cause : SyntaxCause) (h : Leaves statement) :
    Leaves (block closing cause statement) :=
  leaves_many (leaves_blockItem closing cause h)

theorem leaves_body (h : Leaves statement) : Leaves (body statement) :=
  leaves_bind (leaves_block _ _ h) fun _ => leaves_bind (leaves_expect _ _) fun _ => leaves_pure _

theorem leaves_initializer (h : Leaves expression) : Leaves (initializer expression) :=
  leaves_behind _ h

theorem leaves_declaration (h : Leaves expression) : Leaves (declaration expression) :=
  leaves_bind (leaves_name _) fun _ => leaves_bind (leaves_initializer h) fun _ =>
    leaves_bind (leaves_expect _ _) fun _ => leaves_pure _

theorem leaves_elsePart (h : Leaves statement) : Leaves (elsePart statement) :=
  leaves_accept_else (leaves_block _ _ h) (leaves_pure _)

theorem leaves_branch (h : Leaves expression) (hs : Leaves statement) :
    Leaves (branch expression statement) :=
  leaves_bind h fun _ => leaves_bind (leaves_expect _ _) fun _ =>
    leaves_bind (leaves_block _ _ hs) fun _ => leaves_bind (leaves_elsePart hs) fun _ =>
      leaves_bind (leaves_expect _ _) fun _ => leaves_pure _

theorem leaves_binding (h : Leaves expression) : Leaves (binding expression) := by
  intro ts
  unfold binding
  split
  · split
    · exact ((leaves_bind h fun _ => leaves_pure _ : Leaves _) _).trans
        ((List.suffix_cons _ _).trans (List.suffix_cons _ _))
    · exact List.suffix_refl _
  · exact List.suffix_refl _

theorem leaves_forLoop (h : Leaves expression) (hs : Leaves statement) :
    Leaves (forLoop expression statement) :=
  leaves_bind (leaves_expect _ _) fun _ => leaves_bind (leaves_binding h) fun _ =>
    leaves_bind (leaves_expect _ _) fun _ => leaves_bind h fun _ =>
      leaves_bind (leaves_expect _ _) fun _ => leaves_bind (leaves_binding h) fun _ =>
        leaves_bind (leaves_expect _ _) fun _ => leaves_bind (leaves_body hs) fun _ =>
          leaves_pure _

theorem leaves_whileLoop (h : Leaves expression) (hs : Leaves statement) :
    Leaves (whileLoop expression statement) :=
  leaves_bind h fun _ => leaves_bind (leaves_expect _ _) fun _ =>
    leaves_bind (leaves_body hs) fun _ => leaves_pure _

theorem leaves_exitValue (h : Leaves expression) : Leaves (exitValue expression) :=
  leaves_bind (leaves_ahead _) fun _ =>
    leaves_ite (leaves_pure _) (leaves_bind h fun _ => leaves_pure _)

theorem leaves_exit (h : Leaves expression) : Leaves (exit expression) :=
  leaves_bind (leaves_exitValue h) fun _ => leaves_bind (leaves_expect _ _) fun _ =>
    leaves_pure _

theorem leaves_effectOf (h : Leaves expression) (target : Expression) :
    Leaves (effectOf expression target) :=
  leaves_accept_else
    (leaves_bind h fun _ => leaves_bind (leaves_expect _ _) fun _ => leaves_pure _)
    (leaves_bind (leaves_expect _ _) fun _ => leaves_pure _)

theorem leaves_effect (h : Leaves expression) : Leaves (effect expression) :=
  leaves_bind h fun _ => leaves_effectOf h _

theorem reads_effect (h : Leaves expression) (hr : Reads expression) :
    Reads (effect expression) :=
  reads_bind_left hr fun _ => leaves_effectOf h _

theorem leaves_anyStatement (h : Leaves expression) (hs : Leaves statement) :
    Leaves (anyStatement expression statement) :=
  leaves_accept_else (leaves_declaration h) (leaves_accept_else (leaves_branch h hs)
    (leaves_accept_else (leaves_forLoop h hs) (leaves_accept_else (leaves_whileLoop h hs)
      (leaves_accept_else (leaves_exit h) (leaves_effect h)))))

theorem reads_anyStatement (h : Leaves expression) (hr : Reads expression)
    (hs : Leaves statement) : Reads (anyStatement expression statement) :=
  reads_accept_else (leaves_declaration h) (reads_accept_else (leaves_branch h hs)
    (reads_accept_else (leaves_forLoop h hs) (reads_accept_else (leaves_whileLoop h hs)
      (reads_accept_else (leaves_exit h) (reads_effect h hr)))))

theorem leaves_statement (depth : Nat) : Leaves (Grammar.statement depth) := by
  induction depth with
  | zero => exact leaves_fail _
  | succ depth ih => exact leaves_anyStatement (leaves_expression depth) ih

theorem reads_statement (depth : Nat) : Reads (Grammar.statement depth) := by
  cases depth with
  | zero => exact reads_fail _
  | succ depth =>
    exact reads_anyStatement (leaves_expression depth) (reads_expression depth)
      (leaves_statement depth)

theorem leaves_fieldRest (depth : Nat) : Leaves (fieldRest depth) :=
  leaves_bind (leaves_accept _) fun _ => leaves_bind (leaves_name _) fun _ =>
    leaves_bind (leaves_initializer (leaves_expression depth)) fun _ =>
      leaves_bind (leaves_expect _ _) fun _ => leaves_pure _

theorem leaves_field (depth : Nat) : Leaves (field depth) :=
  leaves_bind (leaves_expect _ _) fun _ => leaves_fieldRest depth

theorem reads_field (depth : Nat) : Reads (field depth) :=
  reads_bind_left (reads_expect _ _) fun _ => leaves_fieldRest depth

theorem leaves_parameters : Leaves parameters :=
  leaves_bind (leaves_ahead _) fun _ => leaves_ite
    (leaves_bind (leaves_name _) fun _ => leaves_bind
      (leaves_many (leaves_behind _ (leaves_name _))) fun _ => leaves_pure _)
    (leaves_pure _)

theorem leaves_methodRest (depth : Nat) : Leaves (methodRest depth) :=
  leaves_bind (leaves_name _) fun _ => leaves_bind (leaves_expect _ _) fun _ =>
    leaves_bind leaves_parameters fun _ => leaves_bind (leaves_expect _ _) fun _ =>
      leaves_bind (leaves_expect _ _) fun _ =>
        leaves_bind (leaves_body (leaves_statement depth)) fun _ => leaves_pure _

theorem leaves_method (depth : Nat) : Leaves (method depth) :=
  leaves_bind (leaves_expect _ _) fun _ => leaves_methodRest depth

theorem reads_method (depth : Nat) : Reads (method depth) :=
  reads_bind_left (reads_expect _ _) fun _ => leaves_methodRest depth

theorem leaves_definition (depth : Nat) : Leaves (definition depth) :=
  leaves_bind leaves_atEnd fun _ => leaves_ite (leaves_pure _)
    (leaves_bind (leaves_ahead _) fun _ => leaves_ite
      (leaves_bind (leaves_field depth) fun _ => leaves_pure _)
      (leaves_bind (leaves_ahead _) fun _ => leaves_ite
        (leaves_bind (leaves_method depth) fun _ => leaves_pure _) (leaves_fail _)))

theorem finds_definition (depth : Nat) : Finds (definition depth) := by
  intro ts d rest hd
  unfold definition at hd
  rw [bind_apply] at hd
  change (if _ then _ else _ : Rule (Option Definition)) ts = _ at hd
  split at hd
  · cases hd
  · rw [bind_apply] at hd
    change (if _ then _ else _ : Rule (Option Definition)) ts = _ at hd
    split at hd
    · have hreads := reads_bind_left (reads_field depth) fun f =>
        leaves_pure (some (Definition.field f))
      exact hreads ts _ rest hd
    · rw [bind_apply] at hd
      change (if _ then _ else _ : Rule (Option Definition)) ts = _ at hd
      split at hd
      · have hreads := reads_bind_left (reads_method depth) fun m =>
          leaves_pure (some (Definition.method m))
        exact hreads ts _ rest hd
      · cases hd

theorem leaves_program (depth : Nat) : Leaves (program depth) :=
  leaves_bind (leaves_many (leaves_definition depth)) fun _ => leaves_pure _

end FrontEnd.Grammar
