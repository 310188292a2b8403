import FrontEnd.Token.Scan.Lemmas

/-!
# Cutting a source into tokens

A source is cut from left to right into tokens and skipped runs of blanks. A cut that ends in a
problem keeps its pieces, the characters pending and the text not yet read.
-/

namespace FrontEnd

/-- A part of a source that has been dealt with. -/
inductive Piece where
  | token (t : Token)
  | skipped (start : Nat) (text : List Char)
deriving DecidableEq

namespace Piece

def text : Piece → List Char
  | token t => t.text.toList
  | skipped _ text => text

def token? : Piece → Option Token
  | token t => some t
  | skipped _ _ => none

end Piece

/-- How far a cut came: its pieces, the characters read since the last piece with the offset of
the first of them, the text not yet read, and the problem that stopped it. -/
structure Cut where
  pieces : List Piece
  start : Nat
  pending : List Char
  rest : List Char
  problem : Option LexicalProblem

namespace Cut

/-- A cut that began with some piece. -/
def after (p : Piece) (c : Cut) : Cut := { c with pieces := p :: c.pieces }

/-- The tokens among the pieces. -/
def tokens (c : Cut) : List Token := c.pieces.filterMap Piece.token?

/-- The offset of the first character not yet read. -/
def offset (c : Cut) : Nat := c.start + c.pending.length

end Cut

/-- Cuts text, given the offset of the pending characters in front of it. They become part of the
first piece. -/
def cut (start : Nat) (pending : List Char) (cs : List Char) : Cut :=
  match cs with
  | [] => ⟨[], start, pending, [], none⟩
  | c :: r =>
    if isBlank c then
      let run := pending ++ [c]
      (cut (start + run.length) [] r).after (.skipped start run)
    else
      let scan := Scan.token (c :: r)
      match _h : scan.outcome with
      | .ok kind =>
        let run := pending ++ scan.taken
        (cut (start + run.length) [] scan.rest).after (.token ⟨kind, String.ofList run, start⟩)
      | .error problem => ⟨[], start, pending ++ scan.taken, scan.rest, some problem⟩
termination_by cs.length
decreasing_by
  · simp
  · exact Scan.length_rest_token_lt _h

theorem cut_of_blank {c : Char} (hc : isBlank c = true) (start : Nat) (pending r : List Char) :
    cut start pending (c :: r) = (cut (start + (pending ++ [c]).length) [] r).after
      (.skipped start (pending ++ [c])) := by
  rw [cut]
  simp only [hc, if_true]

theorem cut_of_token {c : Char} {r : List Char} (hc : isBlank c = false) {kind : TokenKind}
    (h : (Scan.token (c :: r)).outcome = .ok kind) (start : Nat) (pending : List Char) :
    cut start pending (c :: r) =
      (cut (start + (pending ++ (Scan.token (c :: r)).taken).length) []
        (Scan.token (c :: r)).rest).after
        (.token ⟨kind, String.ofList (pending ++ (Scan.token (c :: r)).taken), start⟩) := by
  rw [cut]
  simp only [hc, Bool.false_eq_true, if_false]
  split
  · next k hk =>
    rw [h] at hk
    cases hk
    rfl
  · next problem hp =>
    rw [h] at hp
    cases hp

theorem cut_of_error {c : Char} {r : List Char} (hc : isBlank c = false) {problem : LexicalProblem}
    (h : (Scan.token (c :: r)).outcome = .error problem) (start : Nat) (pending : List Char) :
    cut start pending (c :: r) = ⟨[], start, pending ++ (Scan.token (c :: r)).taken,
      (Scan.token (c :: r)).rest, some problem⟩ := by
  rw [cut]
  simp only [hc, Bool.false_eq_true, if_false]
  split
  · next kind hk =>
    rw [h] at hk
    cases hk
  · next p hp =>
    rw [h] at hp
    cases hp
    rfl

/-- The tokens of a source, or the first lexical problem in it. -/
def tokenize (source : String) : Except LexicalError (List Token) :=
  let c := cut 0 [] source.toList
  match c.problem with
  | some problem => .error ⟨problem, c.offset⟩
  | none => .ok c.tokens

end FrontEnd
