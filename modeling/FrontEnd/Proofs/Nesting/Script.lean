import FrontEnd.Proofs.Prefix.Lookahead
import FrontEnd.Proofs.Syntax.Nesting

/-!
# Scripts of rules

What a rule does depends on the expressions and statements inside only through their outcomes. Its
script says so: it is what the rule does up to its end or up to the next construct inside, and how
it goes on with the outcome of that. Scripts are put together as rules are, so that what is said of
them here holds of all rules of the grammar.
-/

namespace FrontEnd

/-- The outcome of a rule. -/
abbrev Outcome (α : Type) := EStateM.Result Problem (List Token) α

/-- The constructs that stand inside each other, each of which is a level. -/
inductive Nest where
  | expression
  | statement

namespace Nest

def Tree : Nest → Type
  | expression => Expression
  | statement => Statement

/-- The deepest nesting of what stands inside. -/
def inner : (n : Nest) → n.Tree → Nat
  | expression => Expression.inner
  | statement => Statement.inner

def nesting (n : Nest) (t : n.Tree) : Nat := n.inner t + 1

/-- The rule with some levels left, its own included. -/
def rule (depth : Nat) : (n : Nest) → Rule n.Tree
  | expression => Grammar.expression depth
  | statement => Grammar.statement depth

end Nest

/-- The same outcome, with tokens of the same kinds and texts left. -/
inductive AlikeOutcome {α : Type} : Outcome α → Outcome α → Prop
  | ok (a : α) {rest rest' : List Token} (h : Alike rest rest') :
      AlikeOutcome (.ok a rest) (.ok a rest')
  | error (problem : Problem) {rest rest' : List Token} (h : Alike rest rest') :
      AlikeOutcome (.error problem rest) (.error problem rest')

/-- What a failure says: it lies in front of some of the tokens, and if it is that of a numeral,
right behind the token that cannot be read. -/
def Fails (ts : List Token) : Problem → List Token → Prop
  | .syntactic _, rest => rest <:+ ts
  | .numeral kind, rest => ∃ t, t :: rest <:+ ts ∧ constant? t = some (.error kind)

lemma Fails.mono {ts us rest : List Token} {problem : Problem} (h : Fails ts problem rest)
    (hts : ts <:+ us) : Fails us problem rest := by
  cases problem with
  | syntactic cause => exact List.IsSuffix.trans h hts
  | numeral kind =>
    obtain ⟨t, ht, hc⟩ := h
    exact ⟨t, ht.trans hts, hc⟩

lemma Fails.suffix {ts rest : List Token} {problem : Problem} (h : Fails ts problem rest) :
    rest <:+ ts := by
  cases problem with
  | syntactic cause => exact h
  | numeral kind =>
    obtain ⟨t, ht, -⟩ := h
    exact (List.suffix_cons t rest).trans ht

/-- That the outcome of a rule depends on nothing but kinds and texts. -/
def Rule.Blind {α : Type} (r : Rule α) : Prop :=
  ∀ {ts us : List Token}, Alike ts us → AlikeOutcome (r ts) (r us)

/-- What a rule does up to its end, or up to the next construct inside. The outcome of that decides
how the rule goes on, and a failure of it is its own failure. -/
inductive Script (α : Type) where
  | ok (value : α) (rest : List Token)
  | error (problem : Problem) (rest : List Token)
  | call (n : Nest) (ahead : List Token) (next : n.Tree → List Token → Script α)

namespace Script

variable {α β : Type}

/-- The outcome with some levels left for the constructs inside. -/
def play (depth : Nat) : Script α → Outcome α
  | ok a rest => .ok a rest
  | error problem rest => .error problem rest
  | call n ahead next =>
    match n.rule depth ahead with
    | .ok b rest => (next b rest).play depth
    | .error problem rest => .error problem rest

/-- The script that has some outcome and no construct inside. -/
def ended : Outcome α → Script α
  | .ok a rest => ok a rest
  | .error problem rest => error problem rest

def bind (f : α → List Token → Script β) : Script α → Script β
  | ok a rest => f a rest
  | error problem rest => error problem rest
  | call n ahead next => call n ahead fun b rest => (next b rest).bind f

/-- That the value weighs as much as a weight to start from and all constructs inside. -/
def Weighs (weight : α → Nat) : Nat → Script α → Prop
  | start, ok a _ => weight a = start
  | _, error _ _ => True
  | start, call n _ next => ∀ b rest, Weighs weight (max start (n.nesting b)) (next b rest)

/-- That every construct inside starts behind what was read before it, and that a failure lies there
too. -/
def Within : List Token → Script α → Prop
  | ts, ok _ rest => rest <:+ ts
  | ts, error problem rest => Fails ts problem rest
  | ts, call _ ahead next => ahead <:+ ts ∧ ∀ b rest, Within rest (next b rest)

/-- Scripts that differ in the places of tokens at most. -/
inductive AlikeScript : Script α → Script α → Prop
  | ok (a : α) {rest rest' : List Token} (h : Alike rest rest') :
      AlikeScript (ok a rest) (ok a rest')
  | error (problem : Problem) {rest rest' : List Token} (h : Alike rest rest') :
      AlikeScript (error problem rest) (error problem rest')
  | call (n : Nest) {ahead ahead' : List Token} {next next' : n.Tree → List Token → Script α}
      (h : Alike ahead ahead')
      (hnext : ∀ b {rest rest'}, Alike rest rest' → AlikeScript (next b rest) (next' b rest')) :
      AlikeScript (call n ahead next) (call n ahead' next')

section Laws

variable {s s' : Script α} {f f' : α → List Token → Script β} {v : α → Nat} {w : β → Nat}
  {start : Nat} {ts us : List Token}

@[simp] lemma play_ended (depth : Nat) (o : Outcome α) : (ended o).play depth = o := by
  cases o <;> rfl

lemma ended_injective {o o' : Outcome α} (h : ended o = ended o') : o = o' := by
  rw [← play_ended 0 o, h, play_ended]

lemma play_bind (depth : Nat) (f : α → List Token → Script β) (s : Script α) :
    (s.bind f).play depth =
      match s.play depth with
      | .ok a rest => (f a rest).play depth
      | .error problem rest => .error problem rest := by
  induction s with
  | ok a rest => rfl
  | error problem rest => rfl
  | call n ahead next ih =>
    simp only [bind, play]
    cases n.rule depth ahead with
    | ok b rest => exact ih b rest
    | error problem rest => rfl

/-- A value weighs as much as the weight to start from at least. -/
lemma Weighs.start_le (h : s.Weighs v start) {depth : Nat} {a : α} {rest : List Token}
    (ho : s.play depth = .ok a rest) : start ≤ v a := by
  induction s generalizing start with
  | ok b left =>
    cases ho
    exact Nat.le_of_eq (Eq.symm h)
  | error problem left => cases ho
  | call n ahead next ih =>
    simp only [play] at ho
    split at ho
    · next b middle _ => exact (Nat.le_max_left _ _).trans (ih b middle (h b middle) ho)
    · cases ho

lemma Weighs.bind (h : s.Weighs v start) (hf : ∀ a rest, (f a rest).Weighs w (v a)) :
    (s.bind f).Weighs w start := by
  induction s generalizing start with
  | ok a rest =>
    have hv : v a = start := h
    exact hv ▸ hf a rest
  | error problem rest => trivial
  | call n ahead next ih => exact fun b rest => ih b rest (h b rest)

lemma Within.mono (h : s.Within ts) (hts : ts <:+ us) : s.Within us := by
  cases s with
  | ok a rest => exact h.trans hts
  | error problem rest => exact Fails.mono h hts
  | call n ahead next => exact ⟨h.1.trans hts, h.2⟩

lemma Within.bind (h : s.Within ts) (hf : ∀ a rest, (f a rest).Within rest) :
    (s.bind f).Within ts := by
  induction s generalizing ts with
  | ok a rest => exact (hf a rest).mono h
  | error problem rest => exact h
  | call n ahead next ih => exact ⟨h.1, fun b rest => ih b rest (h.2 b rest)⟩

lemma AlikeScript.bind (h : AlikeScript s s')
    (hf : ∀ a {rest rest'}, Alike rest rest' → AlikeScript (f a rest) (f' a rest')) :
    AlikeScript (s.bind f) (s'.bind f') := by
  induction h with
  | ok a h => exact hf a h
  | error problem h => exact .error problem h
  | call n h _ ih => exact .call n h ih

lemma AlikeScript.ended {o o' : Outcome α} (h : AlikeOutcome o o') :
    AlikeScript (ended o) (ended o') := by
  cases h with
  | ok a h => exact .ok a h
  | error problem h => exact .error problem h

/-- Scripts alike are played alike if the rules inside are. -/
lemma AlikeScript.play (h : AlikeScript s s') {depth : Nat}
    (hr : ∀ n : Nest, (n.rule depth).Blind) :
    AlikeOutcome (s.play depth) (s'.play depth) := by
  induction h with
  | ok a h => exact .ok a h
  | error problem h => exact .error problem h
  | @call n ahead ahead' next next' h _ ih =>
    have ho := hr n h
    simp only [Script.play]
    generalize n.rule depth ahead = o, n.rule depth ahead' = o' at ho
    cases ho with
    | ok b h => exact ih b h
    | error problem h => exact .error problem h

end Laws

end Script

end FrontEnd
