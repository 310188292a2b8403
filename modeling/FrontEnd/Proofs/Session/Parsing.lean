import FrontEnd.Proofs.Grammar.Soundness
import FrontEnd.Proofs.Prefix.ErrorPlace
import FrontEnd.Proofs.Session.Cursor
import FrontEnd.Proofs.Session.Depth
import Mathlib.Data.List.Induction

/-!
# The parser under any use

Whatever is called on a cursor over tokens, and whether it fails or not, the cursor stays inside its
tokens and does not go back. What succeeds has read something, and a failure lies where the cursor
stands.
-/

namespace FrontEnd

open Grammar Rule

/-- That a failure lies where a cursor stands: in front of a token, behind the last one, or at the
start if there is none; or right behind a numeral that cannot be read. -/
inductive Failure.At (source : String) (tokens : List Token) (index : Nat) : Failure → Prop
  | reported {r : Report} (hstage : r.stage = .syntactic) (hsource : r.source = source)
      (hplace : r.Marks tokens index ∨ tokens = [] ∧ r.offset = 0 ∧ r.length = 1) :
      At source tokens index (.reported r)
  | integer {t : Token} (hindex : 0 < index) (ht : tokens[index - 1]? = some t)
      (hkind : t.kind = .integer) (hunreadable : readInteger? t.text = none) :
      At source tokens index (.numeral .integer)
  | decimal {t : Token} (hindex : 0 < index) (ht : tokens[index - 1]? = some t)
      (hkind : t.kind = .decimal) (hunreadable : Decimal.read? t.text = none) :
      At source tokens index (.numeral .decimal)

namespace Parsing

/-- The cursor that some calls leave. -/
def after (source : String) (c : TokenCursor) (ks : List Call) : TokenCursor :=
  ks.foldl (fun c k => (call source c k).cursor) c

lemma run_append (source : String) (c : TokenCursor) (ks ls : List Call) :
    run source c (ks ++ ls) = run source c ks ++ run source (after source c ks) ls := by
  induction ks generalizing c with
  | nil => rfl
  | cons k ks ih => rw [List.cons_append, run, run, ih, List.cons_append]; rfl

lemma leaves_construct (depth : Nat) (goal : Goal) : Leaves (construct depth goal) := by
  cases goal with
  | program => exact leaves_map _ (leaves_program depth)
  | field => exact leaves_map _ (leaves_field depth)
  | method => exact leaves_map _ (leaves_method depth)
  | statement => exact leaves_map _ (leaves_statement depth)
  | expression => exact leaves_map _ (leaves_expression depth)

lemma leaves_call (k : Call) : Leaves k.rule := by
  cases k with
  | read goal => exact leaves_map _ (leaves_construct maxNesting goal)
  | peek ps => exact leaves_map _ (leaves_ahead ps)
  | accept ps => exact leaves_map _ (leaves_accept ps)

/-- Whatever is read but a program has some token. -/
lemma reads_construct (depth : Nat) {goal : Goal} (h : goal ≠ .program) :
    Reads (construct depth goal) := by
  cases goal with
  | program => exact absurd rfl h
  | field => exact reads_map _ (reads_field depth)
  | method => exact reads_map _ (reads_method depth)
  | statement => exact reads_map _ (reads_statement depth)
  | expression => exact reads_map _ (reads_expression depth)

lemma reads_call {goal : Goal} (h : goal ≠ .program) : Reads (Call.read goal).rule :=
  reads_map _ (reads_construct maxNesting h)

lemma ends_call {ts rest : List Token} {a : Answer}
    (h : (Call.read .program).rule ts = .ok a rest) : rest = [] := by
  obtain ⟨program, h, -⟩ := map_ok h
  obtain ⟨p, h, -⟩ := map_ok h
  exact program_ends h

lemma within_script (k : Call) (ts : List Token) : (k.script ts).Within ts := by
  cases k with
  | read goal => exact (within_goalScript goal ts).map _
  | peek ps => exact List.suffix_refl ts
  | accept ps =>
    have hrule : (Call.accept ps).rule ts = _ := map_apply Answer.truth (Rule.accept ps) ts
    rw [Call.script, hrule, Rule.accept]
    cases startsAs ps ts with
    | true => exact List.drop_suffix ps.length ts
    | false => exact List.suffix_refl ts

lemma fails_call {k : Call} {ts rest : List Token} {problem : Problem}
    (h : k.rule ts = .error problem rest) : Fails ts problem rest := by
  rw [← play_script] at h
  exact (within_script k ts).fails fails_rule (leaves_rule maxNesting) h

lemma numeral_of_constant? {t : Token} {kind : NumeralKind}
    (h : constant? t = some (.error kind)) :
    (kind = .integer ∧ t.kind = .integer ∧ readInteger? t.text = none) ∨
      (kind = .decimal ∧ t.kind = .decimal ∧ Decimal.read? t.text = none) := by
  unfold constant? at h
  iterate 3 split at h; · cases h
  split at h
  · next hkind =>
    split at h
    · cases h
    · next hread =>
      cases h
      exact .inl ⟨rfl, hkind, hread⟩
  · next hkind =>
    split at h
    · cases h
    · next hread =>
      cases h
      exact .inr ⟨rfl, hkind, hread⟩
  all_goals cases h

/-- A failure of a rule lies in front of the tokens left. -/
lemma failure_at {c : TokenCursor} {problem : Problem} {rest : List Token}
    (h : Fails c.rest problem rest) (source : String) :
    (failureOf source c.tokens rest problem).At source c.tokens (c.leaving rest).index := by
  have hleft := h.suffix.trans (List.drop_suffix c.index c.tokens)
  cases problem with
  | syntactic cause =>
    obtain ⟨front, hfront⟩ := hleft
    have hindex : (c.leaving rest).index = front.length := by
      simp [TokenCursor.leaving, ← hfront]
    refine .reported rfl rfl ?_
    by_cases hne : c.tokens = []
    · obtain ⟨-, rfl⟩ : front = [] ∧ rest = [] := by simpa [hne] using hfront
      exact .inr ⟨hne, by simp [hne], by simp [hne]⟩
    · rw [hindex, ← hfront]
      exact .inl (marks_of_place (hfront ▸ hne) rfl)
  | numeral kind =>
    obtain ⟨t, ht, hconstant⟩ := h
    obtain ⟨front, hfront⟩ := ht.trans (List.drop_suffix c.index c.tokens)
    have hindex : (c.leaving rest).index = front.length + 1 := by
      simp [TokenCursor.leaving, ← hfront]
      omega
    have hbefore : c.tokens[(c.leaving rest).index - 1]? = some t := by
      rw [hindex, ← hfront]
      simp
    have hpositive : 0 < (c.leaving rest).index := by
      rw [hindex]
      exact Nat.succ_pos _
    obtain ⟨rfl, hkind, hread⟩ | ⟨rfl, hkind, hread⟩ := numeral_of_constant? hconstant
    · exact .integer hpositive hbefore hkind hread
    · exact .decimal hpositive hbefore hkind hread

/-- What one call keeps. -/
structure Keeps (source : String) (c : TokenCursor) (k : Call) (o : Outcome) : Prop where
  sound : o.cursor.Sound
  tokens : o.cursor.tokens = c.tokens
  forward : c.index ≤ o.cursor.index
  reads : ∀ goal a, k = .read goal → o.answer = .ok a → goal ≠ .program →
    c.index < o.cursor.index
  ends : ∀ a, k = .read .program → o.answer = .ok a → o.cursor.index = c.tokens.length
  failure : ∀ f, o.answer = .error f → f.At source c.tokens o.cursor.index

/-- Every call keeps what there is to keep. -/
lemma keeps_call (source : String) {c : TokenCursor} (hc : c.Sound) (k : Call) :
    Keeps source c k (call source c k) := by
  rw [call_eq]
  cases ho : k.rule c.rest with
  | ok a rest =>
    have hrest := leaves_ok (leaves_call k) ho
    have hindex := hc.index_leaving hrest
    exact {
      sound := TokenCursor.sound_leaving c rest
      tokens := rfl
      forward := by
        have hle := hrest.length_le
        have hcursor : (Outcome.of source c (.ok a rest)).cursor = c.leaving rest := rfl
        rw [hcursor]
        omega
      reads := by
        rintro goal b rfl - hgoal
        have hlt := reads_call hgoal _ _ _ ho
        have hcursor : (Outcome.of source c (.ok a rest)).cursor = c.leaving rest := rfl
        rw [hcursor]
        omega
      ends := by
        rintro b rfl -
        obtain rfl := ends_call ho
        rfl
      failure := by
        intro f hf
        cases hf }
  | error problem rest =>
    have hfails := fails_call ho
    have hindex := hc.index_leaving hfails.suffix
    exact {
      sound := TokenCursor.sound_leaving c rest
      tokens := rfl
      forward := by
        have hle := hfails.suffix.length_le
        have hcursor : (Outcome.of source c (.error problem rest)).cursor = c.leaving rest := rfl
        rw [hcursor]
        omega
      reads := by
        rintro goal a - ha
        cases ha
      ends := by
        rintro a - ha
        cases ha
      failure := by
        rintro f hf
        cases hf
        exact failure_at hfails source }

/-- The cursor that calls on a cursor over some tokens leave. -/
theorem sound_after (source : String) (tokens : List Token) (ks : List Call) :
    (after source (.start tokens) ks).Sound ∧
      (after source (.start tokens) ks).tokens = tokens := by
  induction ks using List.reverseRecOn with
  | nil => exact ⟨TokenCursor.sound_start tokens, rfl⟩
  | append_singleton ks k ih =>
    obtain ⟨hsound, htokens⟩ := ih
    have hkeeps := keeps_call source hsound k
    have hafter : after source (.start tokens) (ks ++ [k]) =
        (call source (after source (.start tokens) ks) k).cursor := by simp [after]
    rw [hafter]
    exact ⟨hkeeps.sound, hkeeps.tokens.trans htokens⟩

/-- Whatever has been called before, a call leaves the parser consistent, also if it fails: a
counter of the depth is at nothing, the cursor is inside the tokens and has not gone back, what
succeeds has read a token, or all of them if it is a program, and a failure lies where the cursor
stands. -/
theorem parser_stays_consistent (source : String) (tokens : List Token) (earlier : List Call)
    (k : Call) :
    let c := after source (.start tokens) earlier
    let o := call source c k
    run source (.start tokens) (earlier ++ [k]) = run source (.start tokens) earlier ++ [o] ∧
    (∀ os depth, CountedRun source (.start tokens) 0 (earlier ++ [k]) os depth ↔
      os = run source (.start tokens) (earlier ++ [k]) ∧ depth = 0) ∧
    o.cursor.tokens = tokens ∧ c.index ≤ o.cursor.index ∧ o.cursor.index ≤ tokens.length ∧
    (∀ goal a, k = .read goal → o.answer = .ok a → goal ≠ .program →
      c.index < o.cursor.index) ∧
    (∀ a, k = .read .program → o.answer = .ok a → o.cursor.index = tokens.length) ∧
    ∀ f, o.answer = .error f → f.At source tokens o.cursor.index := by
  intro c o
  obtain ⟨hsound, htokens⟩ := sound_after source tokens earlier
  have hkeeps := keeps_call source hsound k
  have htokens' : o.cursor.tokens = tokens := hkeeps.tokens.trans htokens
  have hinside : o.cursor.index ≤ o.cursor.tokens.length := hkeeps.sound
  refine ⟨run_append source _ earlier [k], fun os depth => countedRun_iff, htokens',
    hkeeps.forward, htokens' ▸ hinside, hkeeps.reads, ?_, ?_⟩
  · intro a hk ha
    exact (hkeeps.ends a hk ha).trans (congrArg List.length htokens)
  · intro f hf
    exact htokens ▸ hkeeps.failure f hf

end Parsing

end FrontEnd
