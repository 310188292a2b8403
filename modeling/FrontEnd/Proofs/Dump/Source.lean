import FrontEnd.Proofs.Dump.Tree
import FrontEnd.Proofs.Grammar.Derivation
import FrontEnd.Proofs.Printing.Digits

/-!
# The trees of source text

A program is told from its untyped tree, and the untyped tree of a program that tokens derive is
well-spelled.
-/

namespace FrontEnd

lemma Operator.symbol_injective {o p : Operator} (h : o.symbol = p.symbol) : o = p := by
  have hread := Operator.ofSymbol?_symbol o
  rw [h, Operator.ofSymbol?_symbol] at hread
  exact (Option.some_injective _ hread).symm

lemma Expression.tree_ne_absence (e : Expression) : Tree.alien .absence ≠ e.tree := by
  cases e <;> exact nofun

mutual

theorem Expression.tree_injective : (a b : Expression) → a.tree = b.tree → a = b
  | .literal v, b, h => by
    cases b with
    | literal w =>
      cases h
      rfl
    | _ => cases h
  | .group e, b, h => by
    cases b with
    | group e' => rw [Expression.tree_injective e e' (Tree.group.inj h)]
    | _ => cases h
  | .name n, b, h => by
    cases b with
    | name n' =>
      cases h
      rfl
    | member r n' => exact absurd (Tree.access.inj h).1 r.tree_ne_absence
    | _ => cases h
  | .member r n, b, h => by
    cases b with
    | name n' => exact absurd (Tree.access.inj h).1.symm r.tree_ne_absence
    | member r' n' =>
      obtain ⟨hr, rfl⟩ := Tree.access.inj h
      rw [Expression.tree_injective r r' hr]
    | _ => cases h
  | .call n es, b, h => by
    cases b with
    | call n' es' =>
      obtain ⟨-, rfl, hes⟩ := Tree.call.inj h
      rw [Expression.trees_injective es es' hes]
    | methodCall r n' es' => exact absurd (Tree.call.inj h).1 r.tree_ne_absence
    | _ => cases h
  | .methodCall r n es, b, h => by
    cases b with
    | call n' es' => exact absurd (Tree.call.inj h).1.symm r.tree_ne_absence
    | methodCall r' n' es' =>
      obtain ⟨hr, rfl, hes⟩ := Tree.call.inj h
      rw [Expression.tree_injective r r' hr, Expression.trees_injective es es' hes]
    | _ => cases h
  | .binary o l r, b, h => by
    cases b with
    | binary o' l' r' =>
      obtain ⟨ho, hl, hr⟩ := Tree.binary.inj h
      rw [Operator.symbol_injective ho, Expression.tree_injective l l' hl,
        Expression.tree_injective r r' hr]
    | _ => cases h

theorem Expression.trees_injective : (as bs : List Expression) →
    Expression.trees as = Expression.trees bs → as = bs
  | [], [], _ => rfl
  | a :: as, b :: bs, h => by
    obtain ⟨hhead, htail⟩ := List.cons_eq_cons.mp h
    rw [Expression.tree_injective a b hhead, Expression.trees_injective as bs htail]

end

lemma Tree.ofOption_injective {α : Type} {tree : α → Tree}
    (hinj : ∀ a b, tree a = tree b → a = b) (hne : ∀ a, Tree.alien .absence ≠ tree a)
    {o p : Option α}
    (h : Tree.ofOption (o.map tree) = Tree.ofOption (p.map tree)) : o = p := by
  cases o with
  | none =>
    cases p with
    | none => rfl
    | some b => exact absurd h (hne b)
  | some a =>
    cases p with
    | none => exact absurd h.symm (hne a)
    | some b => rw [hinj a b h]

lemma initializer_injective {o p : Option Expression}
    (h : Tree.ofOption (o.map Expression.tree) = Tree.ofOption (p.map Expression.tree)) : o = p :=
  Tree.ofOption_injective Expression.tree_injective Expression.tree_ne_absence h

lemma Binding.initializationTree_injective (a b : Binding)
    (h : a.initializationTree = b.initializationTree) : a = b := by
  obtain ⟨m, v⟩ := a
  obtain ⟨n, w⟩ := b
  obtain ⟨rfl, hvalue⟩ := Tree.declaration.inj h
  rw [Expression.tree_injective v w hvalue]

lemma Binding.incrementTree_injective (a b : Binding)
    (h : a.incrementTree = b.incrementTree) : a = b := by
  obtain ⟨m, v⟩ := a
  obtain ⟨n, w⟩ := b
  obtain ⟨hname, hvalue⟩ := Tree.assignment.inj h
  obtain ⟨-, rfl⟩ := Tree.access.inj hname
  rw [Expression.tree_injective v w hvalue]

mutual

theorem Statement.tree_injective : (s t : Statement) → s.tree = t.tree → s = t
  | .expression e, t, h => by
    cases t with
    | expression e' => rw [Expression.tree_injective e e' (Tree.effect.inj h)]
    | _ => cases h
  | .declaration n v, t, h => by
    cases t with
    | declaration n' v' =>
      obtain ⟨rfl, hv⟩ := Tree.declaration.inj h
      rw [initializer_injective hv]
    | _ => cases h
  | .assignment r v, t, h => by
    cases t with
    | assignment r' v' =>
      obtain ⟨hr, hv⟩ := Tree.assignment.inj h
      rw [Expression.tree_injective r r' hr, Expression.tree_injective v v' hv]
    | _ => cases h
  | .branch c yes no, t, h => by
    cases t with
    | branch c' yes' no' =>
      obtain ⟨hc, hyes, hno⟩ := Tree.branch.inj h
      rw [Expression.tree_injective c c' hc, Statement.trees_injective yes yes' hyes,
        Statement.trees_injective no no' hno]
    | _ => cases h
  | .forLoop i c j ss, t, h => by
    cases t with
    | forLoop i' c' j' ss' =>
      obtain ⟨hi, hc, hj, hss⟩ := Tree.forLoop.inj h
      rw [Tree.ofOption_injective Binding.initializationTree_injective (fun _ => nofun) hi,
        Expression.tree_injective c c' hc,
        Tree.ofOption_injective Binding.incrementTree_injective (fun _ => nofun) hj,
        Statement.trees_injective ss ss' hss]
    | _ => cases h
  | .whileLoop c ss, t, h => by
    cases t with
    | whileLoop c' ss' =>
      obtain ⟨hc, hss⟩ := Tree.whileLoop.inj h
      rw [Expression.tree_injective c c' hc, Statement.trees_injective ss ss' hss]
    | _ => cases h
  | .exit v, t, h => by
    cases t with
    | exit v' => rw [initializer_injective (Tree.exit.inj h)]
    | _ => cases h

theorem Statement.trees_injective : (ss ts : List Statement) →
    Statement.trees ss = Statement.trees ts → ss = ts
  | [], [], _ => rfl
  | s :: ss, t :: ts, h => by
    obtain ⟨hhead, htail⟩ := List.cons_eq_cons.mp h
    rw [Statement.tree_injective s t hhead, Statement.trees_injective ss ts htail]

end

lemma Field.tree_injective : Function.Injective Field.tree := by
  rintro ⟨m, b, v⟩ ⟨n, c, w⟩ h
  obtain ⟨hname, hconstant, hv⟩ := Tree.field.inj h
  obtain rfl : v = w := initializer_injective hv
  cases hname
  cases hconstant
  rfl

lemma Method.tree_injective : Function.Injective Method.tree := by
  rintro ⟨m, ps, ss⟩ ⟨n, qs, ts⟩ h
  obtain ⟨hname, hparameters, hss⟩ := Tree.method.inj h
  obtain rfl : ss = ts := Statement.trees_injective ss ts hss
  cases hname
  cases hparameters
  rfl

/-- A program is told from its untyped tree. -/
theorem Program.tree_injective : Function.Injective Program.tree := by
  rintro ⟨fs, ms⟩ ⟨gs, ns⟩ h
  obtain ⟨hfields, hmethods⟩ := Tree.program.inj h
  obtain rfl : fs = gs := List.map_injective_iff.mpr Field.tree_injective hfields
  obtain rfl : ms = ns := List.map_injective_iff.mpr Method.tree_injective hmethods
  rfl

lemma hasFraction_of_denotes {t : Token} {v : Literal} (hg : t.Genuine) (h : Denotes t v) :
    v.HasFraction := by
  cases h with
  | decimal hk =>
    have hspells : TokenKind.decimal.Spells t.text.toList := hk ▸ hg
    obtain ⟨sign, whole, fraction, ht, hs, hwhole, hne, -⟩ := hspells
    obtain ⟨hwne, hw⟩ := whole_digits hwhole
    have hpos := List.length_pos_iff.mpr hne
    refine ⟨digitsValue (whole ++ fraction), -fraction.length, ?_, by omega⟩
    rw [ht, decimalValue_decimal hs hwne hw]
  | _ => trivial

/-- An integer that is read has no more digits than are printed. -/
lemma not_overlong_of_denotes {t : Token} {v : Literal} (hu : t.Usable) (h : Denotes t v) :
    v.isOverlong = false := by
  cases h with
  | integer hk =>
    have hspells : TokenKind.integer.Spells t.text.toList := hk ▸ hu.1
    obtain ⟨sign, whole, ht, hs, hwhole⟩ : ∃ sign whole, t.text.toList = sign ++ whole ∧
        IsSignPart sign ∧ (whole = ['0'] ∨ IsPositive whole) := by
      obtain h0 | ⟨sign, p, hp, hs, hpositive⟩ := hspells
      · exact ⟨[], ['0'], h0, .inl rfl, .inl rfl⟩
      · exact ⟨sign, p, hp, hs, .inr hpositive⟩
    obtain ⟨hne, hd⟩ := whole_digits hwhole
    have hlength : whole.length ≤ maxIntegerDigits := by
      have hcount := hu.2 hk
      rwa [ht, hs.countP_isDigit hd] at hcount
    rw [ht, Literal.isOverlong, natAbs_integerValue hs hne hd, toDigits_whole hwhole]
    exact decide_eq_false (Nat.not_lt.mpr hlength)
  | _ => rfl

/-- What is well-spelled about the tree of a derivation. -/
def Nonterminal.WellSpelled : (n : Nonterminal) → n.Tree → Prop
  | source, p => p.tree.WellSpelled
  | field, f => f.tree.WellSpelled
  | method, m => m.tree.WellSpelled
  | names, ss | moreNames, ss => ∀ s ∈ ss, IsIdentifier s
  | statements, ss | elsePart, ss => Tree.AllWellSpelled (Statement.trees ss)
  | statement, s => s.tree.WellSpelled
  | initializer, o => (Tree.ofOption (o.map Expression.tree)).Optional
  | binding, o => ∀ b ∈ o, IsIdentifier b.name ∧ b.value.tree.WellSpelled
  | expression, e | level _, e | secondary, e | primary, e => e.tree.WellSpelled
  | actuals, es | arguments, es | moreArguments, es => Tree.AllWellSpelled (Expression.trees es)

section

variable {o : Option Binding} (h : ∀ b ∈ o, IsIdentifier b.name ∧ b.value.tree.WellSpelled)

include h

lemma optional_initialization : (Tree.ofOption (o.map Binding.initializationTree)).Optional := by
  cases o with
  | none => exact .inl rfl
  | some b => exact .inr ⟨(h b rfl).1, .inr (h b rfl).2⟩

lemma optional_increment : (Tree.ofOption (o.map Binding.incrementTree)).Optional := by
  cases o with
  | none => exact .inl rfl
  | some b => exact .inr ⟨⟨.inl rfl, (h b rfl).1⟩, (h b rfl).2⟩

end

lemma IsName.isIdentifier {admits : String → Prop} {t : Token} (h : IsName admits t)
    (hg : t.Genuine) : IsIdentifier t.text := by
  have hspells : t.kind.Spells t.text.toList := hg
  rwa [h.1] at hspells

/-- The trees of derivations from tokens of the lexer that can be read are well-spelled. -/
theorem wellSpelled_of_derives {admits : String → Prop} {n : Nonterminal} {ts : List Token}
    {tree : n.Tree} (h : Derives admits n ts tree) (hu : ∀ t ∈ ts, t.Usable) :
    n.WellSpelled tree := by
  induction h with
  | noDefinition => exact ⟨⟨trivial, nofun⟩, trivial, nofun⟩
  | sourceField hf hp ihf ihp =>
    obtain ⟨⟨hfields, hfield⟩, hmethods⟩ := ihp fun t ht => hu t (by simp [ht])
    exact ⟨⟨⟨ihf fun t ht => hu t (by simp [ht]), hfields⟩,
      List.forall_mem_cons.mpr ⟨rfl, hfield⟩⟩, hmethods⟩
  | sourceMethod hm hp ihm ihp =>
    obtain ⟨hfields, hmethods, hmethod⟩ := ihp fun t ht => hu t (by simp [ht])
    exact ⟨hfields, ⟨ihm fun t ht => hu t (by simp [ht]), hmethods⟩,
      List.forall_mem_cons.mpr ⟨rfl, hmethod⟩⟩
  | field _ hn _ _ ihv | constantField _ _ hn _ _ ihv | declaration _ hn _ _ ihv =>
    exact ⟨hn.isIdentifier (hu _ (by simp)).1, ihv fun t ht => hu t (by simp [ht])⟩
  | method _ hn _ _ _ _ _ _ ihp ihs =>
    exact ⟨hn.isIdentifier (hu _ (by simp)).1, ihp fun t ht => hu t (by simp [ht]),
      ihs fun t ht => hu t (by simp [ht])⟩
  | noName | lastName => exact nofun
  | names hn _ ihp | moreNames _ hn _ ihp =>
    exact List.forall_mem_cons.mpr ⟨hn.isIdentifier (hu _ (by simp)).1,
      ihp fun t ht => hu t (by simp [ht])⟩
  | noStatement | noElse | noActuals | lastArgument => trivial
  | statements _ _ ihs ihss | arguments _ _ ihs ihss | moreArguments _ _ _ ihs ihss
  | assignment _ _ _ _ ihs ihss =>
    exact ⟨ihs fun t ht => hu t (by simp [ht]), ihss fun t ht => hu t (by simp [ht])⟩
  | branch _ _ _ _ _ _ ihc iht ihe =>
    exact ⟨ihc fun t ht => hu t (by simp [ht]), iht fun t ht => hu t (by simp [ht]),
      ihe fun t ht => hu t (by simp [ht])⟩
  | forLoop _ _ _ _ _ _ _ _ _ _ ihi ihc ihj ihs =>
    exact ⟨optional_initialization (ihi fun t ht => hu t (by simp [ht])),
      ihc fun t ht => hu t (by simp [ht]),
      optional_increment (ihj fun t ht => hu t (by simp [ht])),
      ihs fun t ht => hu t (by simp [ht])⟩
  | whileLoop _ _ _ _ _ ihc ihs =>
    exact ⟨ihc fun t ht => hu t (by simp [ht]), ihs fun t ht => hu t (by simp [ht])⟩
  | exit => exact .inl rfl
  | exitValue _ _ _ ihv => exact .inr (ihv fun t ht => hu t (by simp [ht]))
  | effect _ _ ih | group _ _ _ ih | actuals _ _ _ ih | elsePart _ _ ih =>
    exact ih fun t ht => hu t (by simp [ht])
  | noInitializer => exact .inl rfl
  | initializer _ _ ih => exact .inr (ih fun t ht => hu t (by simp [ht]))
  | noBinding => exact nofun
  | binding hn _ _ ih =>
    rintro b ⟨⟩
    exact ⟨hn.isIdentifier (hu _ (by simp)).1, ih fun t ht => hu t (by simp [ht])⟩
  | expression _ ih | operand _ _ ih | secondary _ ih | primary _ ih => exact ih hu
  | binary _ _ _ _ ihl ihr =>
    exact ⟨⟨_, rfl⟩, ihl fun t ht => hu t (by simp [ht]), ihr fun t ht => hu t (by simp [ht])⟩
  | member _ _ hn ih =>
    exact ⟨.inr (ih fun t ht => hu t (by simp [ht])), hn.isIdentifier (hu _ (by simp)).1⟩
  | methodCall _ _ hn _ ihr ihe =>
    exact ⟨.inr (ihr fun t ht => hu t (by simp [ht])), hn.isIdentifier (hu _ (by simp)).1,
      ihe fun t ht => hu t (by simp [ht])⟩
  | constant hv => exact ⟨hasFraction_of_denotes (hu _ (by simp)).1 hv,
      not_overlong_of_denotes (hu _ (by simp)) hv⟩
  | name hn => exact ⟨.inl rfl, hn.isIdentifier (hu _ (by simp)).1⟩
  | call hn _ ihe =>
    exact ⟨.inl rfl, hn.isIdentifier (hu _ (by simp)).1, ihe fun t ht => hu t (by simp [ht])⟩

end FrontEnd
