import FrontEnd.Proofs.Nesting.Machine

/-!
# Where levels are opened

A run without a limit and one with a limit take the same steps until a construct is opened one level
below the limit. Constructs are opened in the order in which they stand in the source, so that this
first one is the one at which the limit is reported.
-/

namespace FrontEnd.Descent

open Script Relation StateTransition

variable {limit : Option Nat} {l level : Nat} {s s' o f : State} {layer : Layer}
  {ts ahead ahead' : List Token}

/-- That a construct starts next, in front of some tokens and at some level. -/
inductive State.Opens : State → Nat → List Token → Prop
  | call {layer : Layer} (n : Nest) (ahead : List Token)
      (next : n.Tree → List Token → Script layer.Tree) (stack : Stack layer) (depth : Nat) :
      Opens ⟨layer, .call n ahead next, stack, depth⟩ (depth + 1) ahead

/-- That some construct starts at a level and in front of some tokens when there is no limit. -/
def OpensAt (ts : List Token) (level : Nat) (ahead : List Token) : Prop :=
  ∃ s, Reaches (step none) (start ts) s ∧ s.Opens level ahead

/-- The tokens in front of which the first construct of a level starts. The others of that level
start behind it. -/
def FirstAt (ts : List Token) (level : Nat) (ahead : List Token) : Prop :=
  OpensAt ts level ahead ∧ ∀ ahead', OpensAt ts level ahead' → ahead' <:+ ahead

lemma not_opens_final (o : Outcome Program) (level : Nat) (ahead : List Token) :
    ¬(final o).Opens level ahead := by
  cases o <;> rintro ⟨⟩

/-- That whatever waits goes on behind what was read before it. -/
def Stack.Forward : {layer : Layer} → Stack layer → Prop
  | _, .bottom => True
  | _, .push _ next below => (∀ b rest, (next b rest).Within rest) ∧ below.Forward

/-- That a run has come to some tokens and reads nothing in front of them from then on. -/
def State.From (ts : List Token) (s : State) : Prop := s.script.Within ts ∧ s.stack.Forward

lemma from_start (ts : List Token) : (start ts).From ts := ⟨Scripted.program.within ts, trivial⟩

lemma State.From.next (h : s.From ts) (hs : step limit s = some s') : s'.From ts := by
  obtain ⟨hwithin, hforward⟩ := h
  cases step_cases hs with
  | refused => exact ⟨hwithin.1, hforward⟩
  | opened => exact ⟨((Scripted.inside _).within _).mono hwithin.1, hwithin.2, hforward⟩
  | closed => exact ⟨(hforward.1 _ _).mono hwithin, hforward.2⟩
  | failed => exact ⟨hwithin, hforward.2⟩

lemma State.From.reaches (h : s.From ts) (hs : Reaches (step limit) s s') : s'.From ts := by
  induction hs with
  | refl => exact h
  | tail _ hstep ih => exact ih.next hstep

lemma State.From.opens (h : s.From ts) (ho : s.Opens level ahead) : ahead <:+ ts := by
  cases ho
  exact h.1.1

/-- A construct that starts later starts further on. -/
lemma State.Opens.suffix (h : s.From ts) (ho : s.Opens level ahead)
    (hs : Reaches (step limit) s s') (ho' : s'.Opens level ahead') : ahead' <:+ ahead := by
  have hfrom : s.From ahead := by
    obtain ⟨hwithin, hforward⟩ := h
    cases ho
    exact ⟨⟨List.suffix_refl ahead, hwithin.2⟩, hforward⟩
  exact (hfrom.reaches hs).opens ho'

/-- A step without a limit that opens no construct one level below some depth. -/
def QuietStep (l : Nat) (s s' : State) : Prop :=
  (∀ ahead, ¬s.Opens (l + 1) ahead) ∧ s' ∈ step none s

lemma reaches_of_quiet (h : ReflTransGen (QuietStep l) s s') : Reaches (step none) s s' :=
  h.lift id fun _ _ hs => hs.2

/-- Above the limit it makes no difference. -/
lemma step_eq_of_quiet (hd : s.depth ≤ l) (h : ∀ ahead, ¬s.Opens (l + 1) ahead) :
    step (some l) s = step none s := by
  obtain ⟨layer, script, stack, depth⟩ := s
  cases script with
  | call n ahead next =>
    have hne : depth ≠ l := fun he => h ahead (he ▸ .call n ahead next stack depth)
    have hlt : ¬l ≤ depth := fun hl => hne (Nat.le_antisymm hd hl)
    simp [step, hlt]
  | ok a rest => cases stack <;> rfl
  | error problem rest => cases stack <;> rfl

/-- A run with a limit is one without it, up to the first construct below the limit if any. -/
lemma quiet_or_opens (h : Reaches (step (some l)) s f) (hs : Counted (some l) s) :
    ReflTransGen (QuietStep l) s f ∨ ∃ o ahead, ReflTransGen (QuietStep l) s o ∧
      o.Opens (l + 1) ahead ∧ Counted (some l) o ∧ Reaches (step (some l)) o f := by
  induction h using ReflTransGen.head_induction_on with
  | refl => exact .inl .refl
  | @head s s' hstep hreach ih =>
    by_cases hopens : ∃ ahead, s.Opens (l + 1) ahead
    · obtain ⟨ahead, ho⟩ := hopens
      exact .inr ⟨s, ahead, .refl, ho, hs, .head hstep hreach⟩
    · have hquiet : ∀ ahead, ¬s.Opens (l + 1) ahead := not_exists.mp hopens
      have hstep' : QuietStep l s s' := by
        refine ⟨hquiet, ?_⟩
        rwa [← step_eq_of_quiet (hs.bound l rfl) hquiet]
      obtain h | ⟨o, ahead, h, ho⟩ := ih (hs.next hstep)
      · exact .inl (.head hstep' h)
      · exact .inr ⟨o, ahead, .head hstep' h, ho⟩

/-- Whatever construct is opened below the limit is opened behind a quiet run. -/
lemma reaches_of_opens (h : ReflTransGen (QuietStep l) s o) (hs : Reaches (step none) s s')
    (ho : s'.Opens (l + 1) ahead) : Reaches (step none) o s' := by
  induction h using ReflTransGen.head_induction_on with
  | refl => exact hs
  | head hquiet _ ih =>
    obtain rfl | ⟨s₁, hstep, hs⟩ := ReflTransGen.cases_head hs
    · exact absurd ho (hquiet.1 ahead)
    · obtain rfl := Option.mem_unique hquiet.2 hstep
      exact ih hs

/-- Where a construct is opened below the limit, the run with the limit ends with a failure. -/
lemma reaches_nestingTooDeep (ho : s.Opens (l + 1) ahead) (hs : Counted (some l) s) :
    Reaches (step (some l)) s (final (.error (.syntactic .nestingTooDeep) ahead)) := by
  cases ho with
  | call n _ next stack _ =>
    obtain rfl : l = stack.size := hs.size
    refine .head ?_ (reaches_error _ _ ahead stack)
    simp [step]

/-- Reading with a limit does the same as without, or it fails at the first construct below the
limit. -/
theorem ends_or_cut_off (l : Nat) (ts : List Token) :
    (Ends none ts (Grammar.program l ts) ∧ ∀ ahead, ¬OpensAt ts (l + 1) ahead) ∨
      ∃ ahead, FirstAt ts (l + 1) ahead ∧
        Grammar.program l ts = .error (.syntactic .nestingTooDeep) ahead := by
  have hcounted := counted_start (some l) ts
  have hend := ends_program l ts
  obtain h | ⟨o, ahead, h, ho, hco, hend⟩ := quiet_or_opens (ends_iff.mp hend) hcounted
  · refine .inl ⟨ends_iff.mpr (reaches_of_quiet h), ?_⟩
    rintro ahead ⟨s, hs, ho⟩
    obtain rfl | ⟨_, hstep, -⟩ := ReflTransGen.cases_head (reaches_of_opens h hs ho)
    · exact not_opens_final _ _ _ ho
    · rw [Option.mem_def, step_final] at hstep
      cases hstep
  · refine .inr ⟨ahead, ⟨⟨o, reaches_of_quiet h, ho⟩, ?_⟩, ?_⟩
    · rintro ahead' ⟨s, hs, ho'⟩
      have hfrom := (from_start ts).reaches (reaches_of_quiet h)
      exact ho.suffix hfrom (reaches_of_opens h hs ho') ho'
    · exact final_unique hend (reaches_nestingTooDeep ho hco)

end FrontEnd.Descent
