import FrontEnd.Proofs.Grammar.Acceptance
import FrontEnd.Proofs.Lexical.Lexed
import FrontEnd.Proofs.Nesting.Depth
import FrontEnd.Proofs.Prefix.ErrorPlace

/-!
# Layout

Blanks that are inserted outside the tokens move them and do nothing else: the tokens behind them
are the same, so that the same program is read or the same problem is met in front of the same
token.
-/

namespace FrontEnd

/-- A text from some offset on, with more characters inserted in front of each place of it and at
its end. -/
def spread (gap : Nat → List Char) : Nat → List Char → List Char
  | o, [] => gap o
  | o, c :: r => gap o ++ c :: spread gap (o + 1) r

/-- The number of characters inserted in front of the first places. -/
def inserted (gap : Nat → List Char) : Nat → Nat
  | 0 => 0
  | n + 1 => inserted gap n + (gap n).length

/-- A token behind all that is inserted at its offset or before it. -/
def Token.moved (gap : Nat → List Char) (t : Token) : Token :=
  { t with offset := t.offset + inserted gap (t.offset.toNat + 1) }

section Spread

variable {gap : Nat → List Char}

/-- Nothing is inserted at some places in a row. -/
lemma inserted_add {m n : Nat} (h : ∀ i, m ≤ i → i < m + n → gap i = []) :
    inserted gap (m + n) = inserted gap m := by
  induction n with
  | zero => rfl
  | succ n ih =>
    have hlast : gap (m + n) = [] := h (m + n) (Nat.le_add_right m n) (Nat.lt_succ_self _)
    rw [← Nat.add_assoc, inserted, hlast]
    exact ih fun i hi hn => h i hi (Nat.lt_succ_of_lt hn)

/-- A text stays in one piece if nothing is inserted inside it. -/
lemma spread_append {p : List Char} {o : Nat} (hne : p ≠ [])
    (h : ∀ i, o < i → i < o + p.length → gap i = []) (r : List Char) :
    spread gap o (p ++ r) = gap o ++ (p ++ spread gap (o + p.length) r) := by
  induction p generalizing o with
  | nil => exact absurd rfl hne
  | cons c p ih =>
    cases p with
    | nil => rfl
    | cons d p =>
      have hnext : gap (o + 1) = [] :=
        h (o + 1) (Nat.lt_succ_self o) (by simp only [List.length_cons]; omega)
      have ih := ih (o := o + 1) (List.cons_ne_nil d p) fun i hi hlt =>
        h i (by omega) (by simp only [List.length_cons] at hlt ⊢; omega)
      rw [List.cons_append, spread, ih, hnext, List.length_cons (a := c), Nat.add_right_comm,
        Nat.add_assoc]
      rfl

variable (hblank : ∀ i, ∀ c ∈ gap i, isBlank c = true)

include hblank

/-- What is spread begins with a blank, or as it began before. -/
lemma head_spread {o : Nat} {r : List Char} {c : Char} (hc : c ∈ (spread gap o r).head?) :
    isBlank c = true ∨ c ∈ r.head? ∧ ∃ r', spread gap o r = c :: spread gap (o + 1) r' ∧
      r = c :: r' := by
  cases hg : gap o with
  | nil =>
    cases r with
    | nil =>
      rw [spread, hg] at hc
      cases hc
    | cons d r =>
      rw [spread, hg] at hc
      cases hc
      exact .inr ⟨rfl, r, by rw [spread, hg]; rfl, rfl⟩
  | cons b bs =>
    have hb : isBlank b = true := hblank o b (by rw [hg]; exact List.mem_cons_self ..)
    have hhead : (spread gap o r).head? = some b := by cases r <;> simp [spread, hg]
    rw [hhead] at hc
    cases hc
    exact .inl hb

/-- A token still ends where it ended. -/
lemma Scan.Ends.spread {kind : TokenKind} {p r : List Char} (h : Ends kind p r) (o : Nat) :
    Ends kind p (spread gap o r) := by
  refine h.mono (fun c hc => (head_spread hblank hc).imp_right And.left) fun d f hf hd => ?_
  obtain hb | ⟨-, r', hr', rfl⟩ := head_spread hblank (c := '.') (by rw [hf]; rfl)
  · cases hb
  · rw [hf] at hr'
    obtain hb | ⟨-, f', -, rfl⟩ := head_spread hblank (o := o + 1) (r := r') (c := d)
      (by rw [← (List.cons.inj hr').2]; rfl)
    · rw [isDigit_of_isBlank hb] at hd
      cases hd
    · exact ⟨f', rfl⟩

end Spread

/-- A text that is cut into tokens is cut into the same tokens when it is spread outside them. -/
lemma Lexed.spread {gap : Nat → List Char} (hblank : ∀ i, ∀ c ∈ gap i, isBlank c = true) {o : Nat}
    {cs : List Char} {ts : List Token} (h : Lexed [] o cs ts)
    (hinside : ∀ t ∈ ts, ∀ i : Nat, t.offset < i → i < t.stop → gap i = []) :
    Lexed [] (o + inserted gap o) (spread gap o cs) (ts.map (Token.moved gap)) := by
  have hplace : ∀ o n, o + inserted gap o + (gap o).length + n = o + n + inserted gap (o + 1) := by
    intro o n
    rw [inserted]
    omega
  induction h with
  | nil o =>
    have h := Lexed.blanks (w := []) (o := o + inserted gap o) (hblank o) (.nil _)
    rwa [List.append_nil] at h
  | @blank o c r ts hc _ ih =>
    refine .blanks (hblank o) (.blank hc ?_)
    rw [hplace]
    exact ih hinside
  | @token o p r kind ts hs he _ ih =>
    obtain ⟨c, q, rfl⟩ := List.exists_cons_of_ne_nil hs.ne_nil
    have hgap : ∀ i, o < i → i < o + (c :: q).length → gap i = [] := by
      intro i hi hlt
      refine hinside _ (List.mem_cons_self ..) i (Int.ofNat_lt.mpr hi) ?_
      simp only [Token.stop, Token.length, String.length_ofList]
      omega
    have hinserted : inserted gap (o + (c :: q).length) = inserted gap (o + 1) := by
      rw [List.length_cons, Nat.add_comm q.length, ← Nat.add_assoc]
      exact inserted_add fun i hi hlt => hgap i hi (by rw [List.length_cons]; omega)
    rw [spread_append (List.cons_ne_nil c q) hgap]
    refine .blanks (hblank o) ?_
    have hmoved : Token.moved gap ⟨kind, String.ofList (c :: q), o⟩ =
        ⟨kind, String.ofList (c :: q), (o + inserted gap o + (gap o).length : Nat)⟩ := by
      have := hplace o 0
      simp only [Token.moved, Int.toNat_natCast, Token.mk.injEq, true_and]
      omega
    rw [List.map_cons, hmoved]
    refine .token hs ?_ ?_
    · rw [List.append_nil] at he ⊢
      exact he.spread hblank _
    · rw [hplace, ← hinserted]
      exact ih fun t ht => hinside t (List.mem_cons_of_mem _ ht)

lemma alike_moved (gap : Nat → List Char) (ts : List Token) :
    Alike ts (ts.map (Token.moved gap)) := .map (Token.moved gap) (fun _ => rfl) ts

/-- Reports about sources with the same tokens that differ in the place of the token marked. -/
structure SamePlace (ts us : List Token) (r r' : Report) : Prop where
  stage : r.stage = .syntactic ∧ r'.stage = .syntactic
  message : r'.message = r.message
  length : r'.length = r.length
  marks : ∃ index, r.Marks ts index ∧ r'.Marks us index

/-- What is read from a source, or why it cannot be read, carried over to another layout of it. -/
def Relaid (ts us : List Token) : Except Failure Program → Except Failure Program → Prop
  | .ok p, answer => answer = .ok p
  | .error (.numeral kind), answer => answer = .error (.numeral kind)
  | .error (.reported r), answer => ∃ r', answer = .error (.reported r') ∧ SamePlace ts us r r'

lemma length_placeOf {rest rest' : List Token} (h : Alike rest rest') (ts us : List Token) :
    (placeOf us rest').2 = (placeOf ts rest).2 := by
  cases rest with
  | cons t rest =>
    obtain ⟨t', rest', rfl, hlook, -⟩ := h.cons
    have htext : t.text = t'.text := congrArg Prod.snd hlook
    simp only [placeOf, Token.length, htext]
  | nil =>
    obtain rfl := h.nil
    simp only [placeOf]
    cases ts.getLast? <;> cases us.getLast? <;> rfl

/-- Tokens alike are read alike. -/
lemma relaid_of_alike {source source' : String} {ts us : List Token} (h : tokenize source = .ok ts)
    (h' : tokenize source' = .ok us) (ha : Alike ts us) :
    Relaid ts us (parse source) (parse source') := by
  have hl := Grammar.leaves_program Grammar.maxNesting
  have hnil := program_nil Grammar.maxNesting
  rw [parse_of_tokenize h, parse_of_tokenize h']
  have ho := blind_program Grammar.maxNesting ha
  generalize hp : Grammar.program Grammar.maxNesting ts = o at ho
  generalize hp' : Grammar.program Grammar.maxNesting us = o' at ho
  cases ho with
  | ok p _ => rfl
  | @error problem rest rest' hrest =>
    cases problem with
    | numeral kind => rfl
    | syntactic cause =>
      obtain ⟨c, rfl⟩ := Rule.leaves_error hl hp
      obtain ⟨c', rfl⟩ := Rule.leaves_error hl hp'
      have hlength : c.length = c'.length := by
        have h := ha.length_eq
        simp only [List.length_append, hrest.length_eq] at h
        exact Nat.add_right_cancel h
      refine ⟨_, rfl, ⟨rfl, rfl⟩, rfl, length_placeOf hrest _ _, c.length, marks_of_place ?_ rfl,
        hlength ▸ marks_of_place ?_ rfl⟩
      · intro hne
        rw [hne, hnil] at hp
        cases hp
      · intro hne
        rw [hne, hnil] at hp'
        cases hp'

/-- Blanks outside the tokens do not matter: with more of them the same tokens are behind all that
is inserted in front of them, and the same is read, or reported at the same token. -/
theorem layout_does_not_matter {source : String} {ts : List Token} (h : tokenize source = .ok ts)
    {gap : Nat → List Char} (hblank : ∀ i, ∀ c ∈ gap i, isBlank c = true)
    (hinside : ∀ t ∈ ts, ∀ i : Nat, t.offset < i → i < t.stop → gap i = []) :
    tokenize (String.ofList (spread gap 0 source.toList)) = .ok (ts.map (Token.moved gap)) ∧
      Relaid ts (ts.map (Token.moved gap)) (parse source)
        (parse (String.ofList (spread gap 0 source.toList))) := by
  have h' : tokenize (String.ofList (spread gap 0 source.toList)) =
      .ok (ts.map (Token.moved gap)) := by
    refine tokenize_of_lexed ?_
    rw [String.toList_ofList]
    exact (tokenize_eq_ok_iff.mp h).spread hblank hinside
  exact ⟨h', relaid_of_alike h h' (alike_moved gap ts)⟩

theorem constant_on_next_line :
    tokenize "LET a= \n1;" = .ok [⟨.identifier, "LET", 0⟩, ⟨.identifier, "a", 4⟩,
      ⟨.operator, "=", 5⟩, ⟨.integer, "1", 8⟩, ⟨.operator, ";", 9⟩] := by
  have h : tokenize "LET a=1;" = .ok [⟨.identifier, "LET", 0⟩, ⟨.identifier, "a", 4⟩,
      ⟨.operator, "=", 5⟩, ⟨.integer, "1", 6⟩, ⟨.operator, ";", 7⟩] := by decide +kernel
  refine (@layout_does_not_matter _ _ h (fun i => if i = 6 then [' ', '\n'] else []) ?_ ?_).1
  · intro i c hc
    split at hc
    · simp only [List.mem_cons, List.not_mem_nil, or_false] at hc
      rcases hc with rfl | rfl <;> rfl
    · cases hc
  · intro t ht i hi hlt
    refine if_neg ?_
    rintro rfl
    simp only [List.mem_cons, List.not_mem_nil, or_false] at ht
    rcases ht with rfl | rfl | rfl | rfl | rfl <;> revert hi hlt <;> decide

end FrontEnd
