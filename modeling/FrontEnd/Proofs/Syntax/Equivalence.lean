import FrontEnd.Syntax.Equivalence
import FrontEnd.Proofs.Dump.Source
import Mathlib.Data.Rat.Lemmas
import Mathlib.Algebra.Order.Ring.Int
import Mathlib.Algebra.Field.Rat
import Mathlib.Algebra.Order.Ring.Rat

/-!
# Equivalence of syntax trees

Constants have the same value when they are the same, or have the same numeric value. Syntax trees
that source text can have are equal when they are the same with every constant replaced by one that
stands for all of its value.
-/

namespace FrontEnd

/-- The number that a finite decimal stands for. -/
def Decimal.value? : Decimal → Option ℚ
  | ⟨negative, .finite coefficient exponent⟩ =>
    some ((if negative then -(coefficient : ℚ) else coefficient) * 10 ^ exponent)
  | ⟨_, .infinite⟩ | ⟨_, .nan _ _⟩ => none

/-- The numeric value of a boolean, an integer or a finite decimal. -/
def Literal.value? : Literal → Option ℚ
  | boolean value => some (if value then 1 else 0)
  | integer value => some value
  | decimal value => value.value?
  | nil | character _ | string _ => none

namespace Decimal

/-- A power of ten over that with the smaller of two exponents. -/
lemma ten_zpow_eq (e f : Int) : (10 : ℚ) ^ e = 10 ^ (e - f).toNat * 10 ^ min e f := by
  rw [← zpow_natCast, ← zpow_add₀ (by decide)]
  congr 1
  omega

/-- Numbers with the smaller of two exponents are the same if their coefficients are. -/
lemma scaled_eq_iff (x y : Int) (e f : Int) :
    x * 10 ^ (e - f).toNat = y * 10 ^ (f - e).toNat ↔ (x : ℚ) * 10 ^ e = (y : ℚ) * 10 ^ f := by
  have hpos : (10 : ℚ) ^ min e f ≠ 0 := zpow_ne_zero _ (by decide)
  rw [ten_zpow_eq e f, ten_zpow_eq f e, min_comm f e, ← mul_assoc, ← mul_assoc, mul_left_inj' hpos]
  exact_mod_cast Iff.rfl

/-- Decimals are equal if they have one numeric value, or are the same infinity. -/
lemma sameValue_iff {a b : Decimal} : a.sameValue b = true ↔
    (∃ x, a.value? = some x ∧ b.value? = some x) ∨ (a.magnitude = .infinite ∧ a = b) := by
  obtain ⟨s, m⟩ := a
  obtain ⟨t, n⟩ := b
  cases m <;> cases n
  case finite.finite c e d f =>
    have h := (scaled_eq_iff (if s then -c else c) (if t then -d else d) e f).trans eq_comm
    cases s <;> cases t <;> simpa [sameValue, value?] using h
  all_goals simp [sameValue, value?]

@[simp] lemma value?_finite (s : Bool) (c : Nat) (e : Int) : value? ⟨s, .finite c e⟩ =
    some ((if s then -(c : ℚ) else c) * 10 ^ e) := rfl

@[simp] lemma magnitude_ofInt (n : Int) : (ofInt n).magnitude = .finite n.natAbs 0 := rfl

@[simp] lemma value?_ofInt (n : Int) : (ofInt n).value? = some (n : ℚ) := by
  have habs : (if n < 0 then -(n.natAbs : ℚ) else n.natAbs) = n := by
    split
    · next h => rw [Nat.cast_natAbs, abs_of_neg h, Int.cast_neg, neg_neg]
    · next h => rw [Nat.cast_natAbs, abs_of_nonneg (by omega)]
  simpa [ofInt, value?] using habs

end Decimal

namespace Literal

/-- Constants that are the same, or have one numeric value. -/
def SameValue (v w : Literal) : Prop := v = w ∨ ∃ x, v.value? = some x ∧ w.value? = some x

lemma sameValue_iff {v w : Literal} : v.SameValue w ↔
    (∃ x, v.value? = some x ∧ w.value? = some x) ∨
      (v.value? = none ∧ w.value? = none ∧ v = w) := by
  constructor
  · rintro (rfl | h)
    · cases h : v.value? with
      | none => exact .inr ⟨rfl, rfl, rfl⟩
      | some x => exact .inl ⟨x, rfl, rfl⟩
    · exact .inl h
  · rintro (h | ⟨-, -, rfl⟩)
    · exact .inr h
    · exact .inl rfl

lemma equivalence_sameValue : Equivalence SameValue where
  refl v := .inl rfl
  symm := by
    rintro v w (rfl | ⟨x, hv, hw⟩)
    · exact .inl rfl
    · exact .inr ⟨x, hw, hv⟩
  trans := by
    rintro u v w (rfl | ⟨x, hu, hv⟩) (rfl | ⟨y, hv', hw⟩)
    · exact .inl rfl
    · exact .inr ⟨y, hv', hw⟩
    · exact .inr ⟨x, hu, hv⟩
    · obtain rfl : x = y := Option.some_injective _ (hv.symm.trans hv')
      exact .inr ⟨x, hu, hw⟩

/-- Equality of constants is that of their values, but for decimals that are not numbers. -/
lemma equivalent_iff {v : Literal} (hv : v.HasFraction) (w : Literal) :
    v.equivalent w = true ↔ v.SameValue w := by
  rw [sameValue_iff]
  cases v with
  | decimal d =>
    obtain ⟨s, m⟩ := d
    obtain ⟨coefficient, exponent, rfl, -⟩ := hv
    cases w <;> simp [equivalent, number?, value?, Decimal.sameValue_iff]
  | _ => cases w <;> simp [equivalent, number?, value?, Decimal.sameValue_iff]

/-- A constant that stands for all constants of the same value. -/
noncomputable def canonical (v : Literal) : Literal :=
  Quotient.out (s := ⟨SameValue, equivalence_sameValue⟩) (Quotient.mk _ v)

lemma canonical_eq_iff {v w : Literal} : v.canonical = w.canonical ↔ v.SameValue w := by
  rw [canonical, canonical, Quotient.out_inj, Quotient.eq]
  rfl

lemma equivalent_iff_canonical {v w : Literal} (hv : v.HasFraction) :
    v.equivalent w = true ↔ v.canonical = w.canonical := by
  rw [equivalent_iff hv, canonical_eq_iff]

end Literal

namespace Expression

variable (f : Literal → Literal)

mutual

/-- The expression with every constant replaced. -/
@[simp] def mapConstants : Expression → Expression
  | literal v => literal (f v)
  | group content => group (mapConstants content)
  | name n => name n
  | member receiver n => member (mapConstants receiver) n
  | call n as => call n (mapAllConstants as)
  | methodCall receiver n as => methodCall (mapConstants receiver) n (mapAllConstants as)
  | binary o left right => binary o (mapConstants left) (mapConstants right)

@[simp] def mapAllConstants : List Expression → List Expression
  | [] => []
  | e :: es => mapConstants e :: mapAllConstants es

end

end Expression

def Binding.mapConstants (f : Literal → Literal) (b : Binding) : Binding :=
  ⟨b.name, b.value.mapConstants f⟩

namespace Statement

variable (f : Literal → Literal)

mutual

/-- The statement with every constant replaced. -/
@[simp] def mapConstants : Statement → Statement
  | expression e => expression (e.mapConstants f)
  | declaration n v => declaration n (v.map (Expression.mapConstants f))
  | assignment r v => assignment (r.mapConstants f) (v.mapConstants f)
  | branch c yes no => branch (c.mapConstants f) (mapAllConstants yes) (mapAllConstants no)
  | forLoop i c j body =>
    forLoop (i.map (Binding.mapConstants f)) (c.mapConstants f) (j.map (Binding.mapConstants f))
      (mapAllConstants body)
  | whileLoop c body => whileLoop (c.mapConstants f) (mapAllConstants body)
  | exit v => exit (v.map (Expression.mapConstants f))

@[simp] def mapAllConstants : List Statement → List Statement
  | [] => []
  | s :: ss => mapConstants s :: mapAllConstants ss

end

end Statement

def Field.mapConstants (f : Literal → Literal) (d : Field) : Field :=
  ⟨d.name, d.constant, d.value.map (Expression.mapConstants f)⟩

def Method.mapConstants (f : Literal → Literal) (m : Method) : Method :=
  ⟨m.name, m.parameters, Statement.mapAllConstants f m.body⟩

/-- The program with every constant replaced. -/
def Program.mapConstants (f : Literal → Literal) (p : Program) : Program :=
  ⟨p.fields.map (Field.mapConstants f), p.methods.map (Method.mapConstants f)⟩

section

variable {α β : Type} {eq : α → α → Bool} {g : α → β} {tree : α → Tree}
  (h : ∀ a b, (tree a).WellSpelled → (eq a b = true ↔ g a = g b))

include h

lemma optionEquivalent_iff (hne : ∀ a, Tree.alien .absence ≠ tree a) {o : Option α}
    (ho : (Tree.ofOption (o.map tree)).Optional) (p : Option α) :
    optionEquivalent eq o p = true ↔ o.map g = p.map g := by
  cases o with
  | none => cases p <;> simp [optionEquivalent]
  | some a =>
    have ha : (tree a).WellSpelled := ho.resolve_left (hne a).symm
    cases p <;> simp [optionEquivalent, h a _ ha]

lemma isEqv_iff {as : List α} (hs : Tree.AllWellSpelled (as.map tree)) (bs : List α) :
    as.isEqv bs eq = true ↔ as.map g = bs.map g := by
  induction as generalizing bs with
  | nil => cases bs <;> simp
  | cons a as ih => cases bs <;> simp [List.isEqv, h a _ hs.1, ih hs.2]

end

open Literal (canonical)

namespace Expression

mutual

theorem equivalent_iff : (a b : Expression) → a.tree.WellSpelled →
    (a.equivalent b = true ↔ a.mapConstants canonical = b.mapConstants canonical)
  | literal v, b, h => by cases b <;> simp [Literal.equivalent_iff_canonical h.1]
  | group e, b, h => by cases b <;> simp [equivalent_iff e _ h]
  | name n, b, _ => by cases b <;> simp
  | member r n, b, h => by
    have hr : r.tree.WellSpelled := h.1.resolve_left r.tree_ne_absence.symm
    cases b <;> simp [equivalent_iff r _ hr]
  | call n es, b, h => by cases b <;> simp [equivalentAll_iff es _ h.2.2]
  | methodCall r n es, b, h => by
    have hr : r.tree.WellSpelled := h.1.resolve_left r.tree_ne_absence.symm
    cases b <;> simp [equivalent_iff r _ hr, equivalentAll_iff es _ h.2.2, and_assoc]
  | binary o l r, b, h => by
    cases b <;> simp [equivalent_iff l _ h.2.1, equivalent_iff r _ h.2.2, and_assoc]

theorem equivalentAll_iff : (as bs : List Expression) → Tree.AllWellSpelled (trees as) →
    (equivalentAll as bs = true ↔ mapAllConstants canonical as = mapAllConstants canonical bs)
  | [], bs, _ => by cases bs <;> simp
  | a :: as, bs, h => by
    cases bs <;> simp [equivalent_iff a _ h.1, equivalentAll_iff as _ h.2]

end

/-- What stands at an optional place. -/
lemma optionEquivalent_iff {o : Option Expression} (ho : (Tree.ofOption (o.map tree)).Optional)
    (p : Option Expression) :
    optionEquivalent equivalent o p = true ↔
      o.map (mapConstants canonical) = p.map (mapConstants canonical) :=
  FrontEnd.optionEquivalent_iff equivalent_iff tree_ne_absence ho p

end Expression

namespace Binding

lemma equivalent_iff_of_initialization (a b : Binding) (h : a.initializationTree.WellSpelled) :
    a.equivalent b = true ↔ a.mapConstants canonical = b.mapConstants canonical := by
  have hv : a.value.tree.WellSpelled := h.2.resolve_left a.value.tree_ne_absence.symm
  simp [mapConstants, Expression.equivalent_iff _ _ hv]

lemma equivalent_iff_of_increment (a b : Binding) (h : a.incrementTree.WellSpelled) :
    a.equivalent b = true ↔ a.mapConstants canonical = b.mapConstants canonical := by
  simp [mapConstants, Expression.equivalent_iff _ _ h.2]

end Binding

namespace Statement

mutual

theorem equivalent_iff : (a b : Statement) → a.tree.WellSpelled →
    (a.equivalent b = true ↔ a.mapConstants canonical = b.mapConstants canonical)
  | expression e, b, h => by cases b <;> simp [Expression.equivalent_iff e _ h]
  | declaration n v, b, h => by cases b <;> simp [Expression.optionEquivalent_iff h.2]
  | assignment r v, b, h => by
    cases b <;> simp [Expression.equivalent_iff r _ h.1, Expression.equivalent_iff v _ h.2]
  | branch c yes no, b, h => by
    cases b <;> simp [Expression.equivalent_iff c _ h.1,
      equivalentAll_iff yes _ h.2.1, equivalentAll_iff no _ h.2.2, and_assoc]
  | forLoop i c j body, b, h => by
    have hi := optionEquivalent_iff Binding.equivalent_iff_of_initialization nofun h.1
    have hj := optionEquivalent_iff Binding.equivalent_iff_of_increment nofun h.2.2.1
    cases b <;> simp [hi, Expression.equivalent_iff c _ h.2.1, hj,
      equivalentAll_iff body _ h.2.2.2, and_assoc]
  | whileLoop c body, b, h => by
    cases b <;> simp [Expression.equivalent_iff c _ h.1,
      equivalentAll_iff body _ h.2]
  | exit v, b, h => by cases b <;> simp [Expression.optionEquivalent_iff h]

theorem equivalentAll_iff : (as bs : List Statement) → Tree.AllWellSpelled (trees as) →
    (equivalentAll as bs = true ↔ mapAllConstants canonical as = mapAllConstants canonical bs)
  | [], bs, _ => by cases bs <;> simp
  | a :: as, bs, h => by
    cases bs <;> simp [equivalent_iff a _ h.1, equivalentAll_iff as _ h.2]

end

end Statement

lemma Field.equivalent_iff (a b : Field) (h : a.tree.WellSpelled) :
    a.equivalent b = true ↔ a.mapConstants canonical = b.mapConstants canonical := by
  simp [mapConstants, Expression.optionEquivalent_iff h.2, and_assoc]

lemma Method.equivalent_iff (a b : Method) (h : a.tree.WellSpelled) :
    a.equivalent b = true ↔ a.mapConstants canonical = b.mapConstants canonical := by
  simp [mapConstants, Statement.equivalentAll_iff _ _ h.2.2, and_assoc]

/-- A well-spelled program equals those that are the same with every constant replaced by one that
stands for all of its value. -/
theorem Program.equivalent_iff {a : Program} (h : a.tree.WellSpelled) (b : Program) :
    a.equivalent b = true ↔ a.mapConstants canonical = b.mapConstants canonical := by
  simp [equivalent, mapConstants, isEqv_iff Field.equivalent_iff h.1.1,
    isEqv_iff Method.equivalent_iff h.2.1]

end FrontEnd
