import FrontEnd.Proofs.Nesting.Opening

/-!
# Reading ends without a limit

A construct inside another one starts behind a token of it, but for the expression that starts a
statement. So the constructs inside get smaller, if a statement counts for more than an expression
in front of the same tokens, and reading ends at every depth.
-/

namespace FrontEnd

/-- What bounds the constructs inside one that starts in front of some tokens. -/
def Nest.size : Nest → List Token → Nat
  | expression, ts => 2 * ts.length
  | statement, ts => 2 * ts.length + 1

lemma Nest.size_le (n : Nest) (ts : List Token) : n.size ts ≤ 2 * ts.length + 1 := by
  cases n <;> simp [size]

namespace Script

variable {α β : Type} {s : Script α} {ts : List Token}

/-- That every construct inside is smaller than some bound. -/
def Below (bound : Nat) : Script α → Prop
  | ok _ _ => True
  | error _ _ => True
  | call n ahead next => n.size ahead < bound ∧ ∀ b rest, rest <:+ ahead → Below bound (next b rest)

lemma Within.below (h : s.Within ts) {bound : Nat} (hb : 2 * ts.length + 1 < bound) :
    s.Below bound := by
  induction s generalizing ts with
  | ok a rest => trivial
  | error problem rest => trivial
  | call n ahead next ih =>
    have hle := h.1.length_le
    have hsize := n.size_le ahead
    refine ⟨by omega, fun b rest hrest => ih b rest (h.2 b rest) ?_⟩
    have := hrest.length_le
    omega

/-- That a script fails at once or goes on behind the first token. -/
def Starts (ts : List Token) (s : Script α) : Prop :=
  (∃ problem rest, s = error problem rest) ∨ ∃ t us, ts = t :: us ∧ s.Within us

lemma Starts.bind (h : s.Starts ts) {f : α → List Token → Script β}
    (hf : ∀ a rest, (f a rest).Within rest) : (s.bind f).Starts ts := by
  obtain ⟨problem, rest, rfl⟩ | ⟨t, us, rfl, hs⟩ := h
  · exact .inl ⟨problem, rest, rfl⟩
  · exact .inr ⟨t, us, rfl, hs.bind hf⟩

lemma Starts.below (h : s.Starts ts) {bound : Nat} (hb : 2 * ts.length ≤ bound) :
    s.Below bound := by
  obtain ⟨problem, rest, rfl⟩ | ⟨t, us, rfl, hs⟩ := h
  · trivial
  · rw [List.length_cons] at hb
    exact hs.below (by omega)

end Script

namespace Scripted

open Script Rule

variable {α β : Type} {start : Nat} {v : α → Nat} {w : β → Nat} {r r' : Nat → Rule α}

lemma starts_bind {f : α → Nat → Rule β} {s : Scripted r start v}
    (h : ∀ ts, (s.script ts).Starts ts) (t : ∀ a, Scripted (f a) (v a) w) (ts : List Token) :
    ((bind s t).script ts).Starts ts :=
  (h ts).bind fun a rest => (t a).within rest

lemma starts_operand (start : Nat) (ts : List Token) : ((operand start).script ts).Starts ts := by
  cases ts with
  | nil => exact .inl ⟨_, _, rfl⟩
  | cons t us =>
    simp only [operand]
    split
    · exact .inr ⟨t, us, rfl, List.suffix_refl us⟩
    · exact .inl ⟨_, _, rfl⟩
    · split
      · exact .inr ⟨t, us, rfl, (group start).within us⟩
      · split
        · exact .inr ⟨t, us, rfl, (named t.text start).within us⟩
        · exact .inl ⟨_, _, rfl⟩

lemma starts_ladder (start : Nat) (ts : List Token) : ((ladder start).script ts).Starts ts :=
  starts_bind (starts_bind (starts_bind (starts_bind (starts_bind (starts_operand start) _) _) _) _)
    _ ts

lemma below_acceptElse {p : Pattern} {s : Scripted r start v} {s' : Scripted r' start v}
    {ts : List Token} {bound : Nat} (hb : 2 * ts.length ≤ bound)
    (h : (s'.script ts).Below bound) : ((acceptElse p s s').script ts).Below bound := by
  cases ts with
  | nil => exact h
  | cons t us =>
    by_cases hp : p.accepts t = true
    · have hscript : (acceptElse p s s').script (t :: us) = s.script us := by
        simp only [acceptElse, bind, accept, plain, accept_of hp us]
        rfl
      rw [hscript]
      rw [List.length_cons] at hb
      exact (s.within us).below (by omega)
    · have hno : ∀ u ∈ (t :: us).head?, p.accepts u = false := by simpa using hp
      have hscript : (acceptElse p s s').script (t :: us) = s'.script (t :: us) := by
        simp only [acceptElse, bind, accept, plain, accept_of_not hno]
        rfl
      rwa [hscript]

lemma below_effect (start : Nat) (ts : List Token) :
    ((effect start).script ts).Below (2 * ts.length + 1) := by
  refine ⟨Nat.lt_succ_self _, fun b rest hrest => ?_⟩
  have hle := hrest.length_le
  refine below_acceptElse (by omega) ?_
  cases rest with
  | nil => trivial
  | cons t us =>
    simp only [expectThen, opens]
    split
    · trivial
    · trivial

/-- What is inside a construct is smaller than the construct. -/
theorem below_inside (n : Nest) (ts : List Token) :
    ((inside n).script ts).Below (n.size ts) := by
  cases n with
  | expression => exact (starts_ladder 0 ts).below (Nat.le_refl _)
  | statement =>
    have hb : 2 * ts.length ≤ 2 * ts.length + 1 := Nat.le_succ _
    exact below_acceptElse hb (below_acceptElse hb (below_acceptElse hb (below_acceptElse hb
      (below_acceptElse hb (below_effect 0 ts)))))

end Scripted

namespace Descent

open Script StateTransition

/-- Without a limit every layer comes to an outcome. -/
lemma exists_outcome (bound : Nat) {layer : Layer} {ts : List Token} {script : Script layer.Tree}
    (hb : script.Below bound) (hw : script.Within ts) (stack : Stack layer) (depth : Nat) :
    ∃ o : Outcome layer.Tree, Rule.left o <:+ ts ∧
      Reaches (step none) ⟨layer, script, stack, depth⟩ ⟨layer, ended o, stack, depth⟩ := by
  induction bound using Nat.strong_induction_on generalizing layer ts depth with
  | _ bound ihb =>
    induction script generalizing ts with
    | ok a rest => exact ⟨.ok a rest, hw, .refl⟩
    | error problem rest => exact ⟨.error problem rest, hw.suffix, .refl⟩
    | call n ahead next ih =>
      obtain ⟨o, ho, hreach⟩ := ihb (n.size ahead) hb.1 (Scripted.below_inside n ahead)
        ((Scripted.inside n).within ahead) (.push n next stack) (depth + 1)
      cases o with
      | ok b rest =>
        obtain ⟨o, ho', hreach'⟩ := ih b rest (hb.2 b rest ho) (hw.2 b rest)
        exact ⟨o, ho'.trans (ho.trans hw.1), .head rfl (hreach.trans (.head rfl hreach'))⟩
      | error problem rest =>
        exact ⟨.error problem rest, ho.trans hw.1, .head rfl (hreach.tail rfl)⟩

/-- Reading without a limit ends. -/
theorem exists_ends (ts : List Token) : ∃ o, Ends none ts o := by
  have hw := Scripted.program.within ts
  obtain ⟨o, -, h⟩ := exists_outcome _ (hw.below (Nat.lt_succ_self _)) hw .bottom 0
  exact ⟨o, ends_iff.mpr h⟩

end Descent

end FrontEnd
