import FrontEnd.Session.Parsing
import FrontEnd.Proofs.Prefix.Program

/-!
# Where errors are reported

The parser fails in front of the first token with which the tokens read do not begin a program.
Programs are here those of the parser without a bound on the nesting.
-/

namespace FrontEnd

open Grammar

/-- That tokens are a program, however deeply it is nested. -/
def Accepted (ts : List Token) : Prop := ∃ depth p, program depth ts = .ok p []

/-- That a program begins with such tokens. -/
def BeginsProgram (ts : List Token) : Prop := ∃ xs us, Alike ts xs ∧ Accepted (xs ++ us)

lemma Accepted.alike {ts us : List Token} (ha : Accepted ts) (h : Alike ts us) : Accepted us := by
  obtain ⟨depth, p, hp⟩ := ha
  exact ⟨depth, p, program_alike h hp⟩

/-- Accepted tokens that the lexer could have made are, but for their places, those of a source. -/
lemma Accepted.source {ts : List Token} (ha : Accepted ts) (hg : ∀ t ∈ ts, t.Genuine) :
    ∃ source us, tokenize source = .ok us ∧ Alike ts us ∧ Accepted us :=
  ⟨spaced ts, placed 0 ts, tokenize_spaced hg, alike_placed 0 ts, ha.alike (alike_placed 0 ts)⟩

lemma Token.Made.genuine {t : Token} (h : t.Made) : t.Genuine :=
  genuine_of_tokenize h t (List.mem_singleton.mpr rfl)

lemma program_nil (depth : Nat) : program depth [] = .ok ⟨[], []⟩ [] := rfl

section Failure

variable {depth : Nat} {c rest : List Token} {cause : SyntaxCause}

/-- The tokens read in front of a failure can be continued to a program. -/
lemma accepted_of_error (hcause : cause ≠ .nestingTooDeep)
    (he : program depth (c ++ rest) = .error (.syntactic cause) rest) :
    ∃ E, AllMade E ∧ Accepted (c ++ E) := by
  obtain ⟨E, p, hE, hrun⟩ := (completable_program depth).resumed c rest cause hcause he
  refine ⟨E, hE, depth + 1, p, ?_⟩
  have h := (hrun [] rfl).2
  rwa [List.append_nil] at h

/-- Tokens on which the failure depends can not. -/
lemma not_accepted_of_error (hcause : cause ≠ .nestingTooDeep)
    (he : program depth (c ++ rest) = .error (.syntactic cause) rest) {c' rest' : List Token}
    (hc : Alike c c') (hrest : Forced cause c rest rest') : ¬Accepted (c' ++ rest') := by
  rintro ⟨depth', p, hp⟩
  -- Both runs are compared at the greater of the two depths.
  have hmax := (lookahead_program (Nat.le_max_left depth depth')).error hcause he hc hrest
  rw [program_mono (Nat.le_max_right depth depth') hp] at hmax
  cases hmax

lemma not_beginsProgram_of_error (hcause : cause ≠ .nestingTooDeep)
    (he : program depth (c ++ rest) = .error (.syntactic cause) rest) {n : Nat}
    (hn : n ≤ rest.length) (hone : 1 ≤ n) (htwo : AtBinding cause c rest → 2 ≤ n) :
    ¬BeginsProgram (c ++ rest.take n) := by
  rintro ⟨xs, us, hxs, ha⟩
  obtain ⟨c', next, rfl, hc, hnext⟩ := hxs.append
  have hagree : ∀ m, m ≤ n → Agree m rest (next ++ us) := by
    intro m hm
    have hlength : n = next.length := by
      have := congrArg List.length hnext
      simpa [hn] using this
    have htake : Alike ((rest.take n).take m) (next.take m) := by
      have := congrArg (List.take m) hnext
      simpa [Alike] using this
    rw [List.take_take, Nat.min_eq_left hm] at htake
    rw [Agree, List.take_append_of_le_length (by omega)]
    exact htake
  rw [List.append_assoc] at ha
  exact not_accepted_of_error hcause he hc ⟨hagree 1 hone, fun hb => hagree 2 (htwo hb)⟩ ha

end Failure

lemma call_program (text : String) (ts : List Token) :
    Parsing.call text (.start ts) (.read .program) =
      match program maxNesting ts with
      | .ok p rest => ⟨.ok (.construct (.program p)), (TokenCursor.start ts).leaving rest⟩
      | .error problem rest =>
        ⟨.error (failureOf text ts rest problem), (TokenCursor.start ts).leaving rest⟩ := by
  cases hp : program maxNesting ts <;>
    simp [Parsing.call, Parsing.Call.rule, Parsing.apply, construct, TokenCursor.rest,
      TokenCursor.start, EStateM.map, Functor.map, hp]

/-- What a failed call for a program tells about the rule. -/
lemma program_of_call {text : String} {ts : List Token} {failure : Failure} {after : TokenCursor}
    (h : Parsing.call text (.start ts) (.read .program) = ⟨.error failure, after⟩) :
    ∃ problem rest, program maxNesting ts = .error problem rest ∧
      failure = failureOf text ts rest problem ∧ after = (TokenCursor.start ts).leaving rest := by
  rw [call_program] at h
  split at h
  · cases h
  · next problem rest hp =>
    injection h with hfailure hafter
    injection hfailure with hfailure
    exact ⟨problem, rest, hp, hfailure.symm, hafter.symm⟩

/-- The place of a report: a token, or one character behind the last one. -/
def Report.Marks (report : Report) (ts : List Token) (index : Nat) : Prop :=
  (∃ t, ts[index]? = some t ∧ report.offset = t.offset ∧ report.length = t.text.length) ∨
    (index = ts.length ∧ ∃ t ∈ ts.getLast?, report.offset = t.stop ∧ report.length = 1)

lemma marks_of_place {report : Report} {c rest : List Token} (hne : c ++ rest ≠ [])
    (h : (report.offset, report.length) = placeOf (c ++ rest) rest) :
    report.Marks (c ++ rest) c.length := by
  cases rest with
  | cons t rest =>
    injection h with ho hl
    exact .inl ⟨t, by simp, ho, hl⟩
  | nil =>
    rw [List.append_nil] at hne h ⊢
    have hlast := List.getLast?_eq_some_getLast hne
    simp only [placeOf, hlast, Prod.mk.injEq] at h
    exact .inr ⟨rfl, c.getLast hne, hlast, h.1, h.2⟩

/-- Errors are reported in front of the first token that does not continue a program. Only in the
place of a binding it may take the token behind the name to see this. -/
theorem error_at_first_unfit_token {source : String} {ts : List Token}
    (h : tokenize source = .ok ts) {text : String} {report : Report} {after : TokenCursor}
    (hcall : Parsing.call text (.start ts) (.read .program) = ⟨.error (.reported report), after⟩)
    (hmessage : report.message ≠ SyntaxCause.nestingTooDeep.message) :
    report.Marks ts after.index ∧
    (∃ E, AllMade E ∧ Accepted (ts.take after.index ++ E) ∧
      ∃ continued us, tokenize continued = .ok us ∧ Alike (ts.take after.index ++ E) us ∧
        Accepted us) ∧
    ∃ cause : SyntaxCause, report.message = cause.message ∧
      (after.index < ts.length →
        ¬AtBinding cause (ts.take after.index) (ts.drop after.index) →
          ¬BeginsProgram (ts.take (after.index + 1))) ∧
      (after.index + 1 < ts.length → ¬BeginsProgram (ts.take (after.index + 2))) := by
  obtain ⟨problem, rest, he, hfailure, hafter⟩ := program_of_call hcall
  have hread : rest <:+ ts := Rule.leaves_error (leaves_program maxNesting) he
  obtain ⟨c, rfl⟩ := hread
  have hindex : after.index = c.length := by
    rw [hafter]
    simp [TokenCursor.leaving, TokenCursor.start]
  have hne : c ++ rest ≠ [] := by
    intro hnil
    rw [hnil, program_nil] at he
    cases he
  have htake : ∀ n, (c ++ rest).take (c.length + n) = c ++ rest.take n :=
    fun n => List.take_length_add_append n
  rw [hindex, List.take_left, List.drop_left, htake, htake, List.length_append]
  cases problem with
  | numeral kind => cases hfailure
  | syntactic cause =>
    injection hfailure with hreport
    subst hreport
    have hcause : cause ≠ .nestingTooDeep := fun hc => hmessage (by rw [hc])
    obtain ⟨E, hE, ha⟩ := accepted_of_error hcause he
    have hgenuine : ∀ t ∈ c ++ E, t.Genuine := by
      intro t ht
      obtain ht | ht := List.mem_append.mp ht
      · exact genuine_of_tokenize h t (List.mem_append_left rest ht)
      · exact (hE t ht).genuine
    refine ⟨marks_of_place hne rfl, ⟨E, hE, ha, ha.source hgenuine⟩, cause, rfl, ?_, ?_⟩
    · intro hlt hb
      exact not_beginsProgram_of_error hcause he (by omega) (by omega) fun h => absurd h hb
    · intro hlt
      exact not_beginsProgram_of_error hcause he (by omega) (by omega) fun _ => Nat.le_refl 2

theorem numeral_in_place_of_field_name :
    ¬BeginsProgram [⟨.identifier, "LET", 0⟩, ⟨.integer, "1", 4⟩] := by
  have h : tokenize "LET 1;" = .ok [⟨.identifier, "LET", 0⟩, ⟨.integer, "1", 4⟩,
      ⟨.operator, ";", 5⟩] := by decide +kernel
  have hcall : Parsing.call "" (.start [⟨.identifier, "LET", 0⟩, ⟨.integer, "1", 4⟩,
      ⟨.operator, ";", 5⟩]) (.read .program) =
      ⟨.error (.reported ⟨.syntactic, "expected field name", 4, 1, ""⟩), ⟨_, 1⟩⟩ := rfl
  obtain ⟨-, -, cause, -, hno, -⟩ := error_at_first_unfit_token h hcall (by decide)
  refine hno (by decide) ?_
  rintro ⟨-, ⟨n, hn, hk⟩, -⟩
  cases hn
  cases hk

end FrontEnd
