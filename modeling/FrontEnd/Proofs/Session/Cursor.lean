import FrontEnd.Session.Cursor
import Mathlib.Tactic.Common

/-!
# Where cursors stand

The pending run of a cursor over a text stands in front of what is not yet read, and grows by what
is moved over. A cursor over tokens moves to where some of the tokens ahead are left.
-/

namespace FrontEnd

namespace TextCursor

/-- That the pending run of a cursor lies inside its text. -/
structure Sound (c : TextCursor) : Prop where
  pending : c.length ≤ c.index
  inside : c.index ≤ c.source.length

variable {c : TextCursor}

lemma sound_start (source : String) : (start source).Sound :=
  ⟨Nat.le_refl 0, Nat.zero_le _⟩

lemma Sound.pendingStart_add (h : c.Sound) : c.pendingStart + c.length = c.index :=
  Nat.sub_add_cancel h.pending

lemma Sound.length_pending (h : c.Sound) : c.pending.length = c.length := by
  have hpending := h.pending
  have hinside := h.inside
  simp only [TextCursor.pending, TextCursor.pendingStart, List.length_drop, List.length_take]
  omega

/-- The pending run stands in front of what is not yet read. -/
lemma Sound.pending_append_rest (h : c.Sound) :
    c.pending ++ c.rest = c.source.drop c.pendingStart := by
  have hle : c.pendingStart ≤ (c.source.take c.index).length := by
    have hinside := h.inside
    rw [List.length_take, Nat.min_eq_left hinside]
    exact Nat.sub_le _ _
  rw [TextCursor.pending, TextCursor.rest, ← List.drop_append_of_le_length hle,
    List.take_append_drop]

lemma pendingStart_advance (c : TextCursor) (n : Nat) :
    (c.advance n).pendingStart = c.pendingStart := by
  simp only [pendingStart, advance]
  omega

variable {taken rest : List Char}

lemma rest_advance (hr : c.rest = taken ++ rest) : (c.advance taken.length).rest = rest := by
  have hdrop : (c.advance taken.length).rest = c.rest.drop taken.length := by
    simp [TextCursor.rest, advance, List.drop_drop]
  rw [hdrop, hr, List.drop_left]

/-- Nothing is read past the end. -/
lemma Sound.advance (h : c.Sound) (hr : c.rest = taken ++ rest) :
    (c.advance taken.length).Sound := by
  have hlength := congrArg List.length hr
  have hinside := h.inside
  simp only [TextCursor.rest, List.length_drop, List.length_append] at hlength
  exact ⟨Nat.add_le_add_right h.pending _, by simp only [TextCursor.advance]; omega⟩

lemma Sound.pending_advance (h : c.Sound) (hr : c.rest = taken ++ rest) :
    (c.advance taken.length).pending = c.pending ++ taken := by
  have hall := (h.advance hr).pending_append_rest
  have hold := h.pending_append_rest
  rw [rest_advance hr, pendingStart_advance] at hall
  rw [hr, ← List.append_assoc] at hold
  exact List.append_cancel_right (hall.trans hold.symm)

lemma Sound.skip (h : c.Sound) : c.skip.Sound := ⟨Nat.zero_le _, h.inside⟩

/-- The next run starts where the pending one ends with what is moved over. -/
lemma Sound.pendingStart_skip (h : c.Sound) (taken : List Char) :
    (c.advance taken.length).skip.pendingStart = c.pendingStart + (c.pending ++ taken).length := by
  rw [List.length_append, h.length_pending, ← Nat.add_assoc, h.pendingStart_add]
  rfl

lemma Sound.pending_skip (h : c.Sound) : c.skip.pending = [] :=
  List.length_eq_zero_iff.mp h.skip.length_pending

end TextCursor

namespace TokenCursor

/-- That a cursor does not stand behind the end of its tokens. -/
def Sound (c : TokenCursor) : Prop := c.index ≤ c.tokens.length

variable {c : TokenCursor} {rest : List Token}

lemma sound_start (tokens : List Token) : (start tokens).Sound := Nat.zero_le _

lemma sound_leaving (c : TokenCursor) (rest : List Token) : (c.leaving rest).Sound :=
  Nat.sub_le _ _

lemma Sound.index_add_length (h : c.Sound) : c.index + c.rest.length = c.tokens.length := by
  rw [rest, List.length_drop]
  exact Nat.add_sub_of_le h

/-- A cursor moves forward by the tokens that are no longer left. -/
lemma Sound.index_leaving (h : c.Sound) (hrest : rest <:+ c.rest) :
    (c.leaving rest).index + rest.length = c.index + c.rest.length := by
  rw [h.index_add_length]
  exact Nat.sub_add_cancel ((hrest.trans (List.drop_suffix _ _)).length_le)

end TokenCursor

end FrontEnd
