import FrontEnd.Token.Stream
import Mathlib.Data.List.Basic
import Mathlib.Tactic.Common

/-!
# Pieces of a source without gaps

Pieces that begin where the one before ends, each with the characters of the source that stand
there. They are in order and apart, and every place in their range belongs to one of them.
-/

namespace FrontEnd

namespace Piece

/-- The offset of a piece. -/
def start : Piece → Int
  | token t => t.offset
  | skipped n _ => n

/-- The offset just past a piece. -/
def stop (p : Piece) : Int := p.start + p.text.length

def Covers (p : Piece) (i : Nat) : Prop := p.start ≤ i ∧ i < p.stop

end Piece

/-- That pieces that are not empty fill a source from one place to another. -/
inductive Tiles (source : List Char) : Nat → List Piece → Nat → Prop
  | nil (n : Nat) : Tiles source n [] n
  | cons {n m : Nat} {p : Piece} {ps : List Piece} (hstart : p.start = n) (hne : p.text ≠ [])
      (htext : p.text = (source.drop n).take p.text.length)
      (h : Tiles source (n + p.text.length) ps m) : Tiles source n (p :: ps) m

namespace Tiles

variable {source : List Char} {n m k : Nat} {p : Piece} {ps qs : List Piece}

lemma append (h : Tiles source n ps m) (h' : Tiles source m qs k) :
    Tiles source n (ps ++ qs) k := by
  induction h with
  | nil n => exact h'
  | cons hstart hne htext _ ih => exact .cons hstart hne htext (ih h')

lemma le (h : Tiles source n ps m) : n ≤ m := by
  induction h with
  | nil n => exact Nat.le_refl n
  | cons _ _ _ _ ih => omega

/-- What stands in the range of some pieces. -/
lemma mem (h : Tiles source n ps m) (hp : p ∈ ps) : n ≤ p.start ∧ p.stop ≤ m ∧ p.text ≠ [] ∧
    p.text = (source.drop p.start.toNat).take p.text.length := by
  induction h with
  | nil n => cases hp
  | @cons n m q qs hstart hne htext h ih =>
    obtain rfl | hp := List.mem_cons.mp hp
    · have hle := h.le
      refine ⟨Int.le_of_eq hstart.symm, ?_, hne, ?_⟩
      · rw [Piece.stop, hstart]
        omega
      · rw [hstart, Int.toNat_natCast]
        exact htext
    · obtain ⟨hn, hm⟩ := ih hp
      exact ⟨by omega, hm⟩

lemma pairwise (h : Tiles source n ps m) : ps.Pairwise fun p q => p.stop ≤ q.start := by
  induction h with
  | nil n => exact .nil
  | @cons n m p ps hstart hne htext h ih =>
    refine .cons (fun q hq => ?_) ih
    obtain ⟨hn, -⟩ := h.mem hq
    rw [Piece.stop, hstart]
    omega

/-- Every place in their range belongs to one of the pieces and to no other. -/
lemma covered (h : Tiles source n ps m) {i : Nat} (hn : n ≤ i) (hm : i < m) :
    ∃! p, p ∈ ps ∧ p.Covers i := by
  induction h with
  | nil n => omega
  | @cons n m p ps hstart hne htext h ih =>
    have hstop : p.stop = (n + p.text.length : Nat) := by
      rw [Piece.stop, hstart]
      omega
    by_cases hi : i < n + p.text.length
    · refine ⟨p, ⟨List.mem_cons_self .., by omega, by omega⟩, ?_⟩
      rintro q ⟨hq, hcovers⟩
      obtain rfl | hq := List.mem_cons.mp hq
      · rfl
      · obtain ⟨hge, -⟩ := h.mem hq
        exact absurd hcovers.1 (by omega)
    · obtain ⟨q, ⟨hq, hcovers⟩, hunique⟩ := ih (Nat.le_of_not_lt hi) hm
      refine ⟨q, ⟨List.mem_cons_of_mem p hq, hcovers⟩, ?_⟩
      rintro r ⟨hr, hr'⟩
      obtain rfl | hr := List.mem_cons.mp hr
      · exact absurd hr'.2 (by omega)
      · exact hunique r ⟨hr, hr'⟩

end Tiles

end FrontEnd
