import FrontEnd.Session.Lexing
import FrontEnd.Proofs.Session.Cursor
import FrontEnd.Proofs.Session.Tiling
import Mathlib.Data.List.Induction

/-!
# The lexer under any use

Whatever is called on a cursor, and whether it fails or not, the pieces made so far and the pending
run fill the source up to the index. What a failing call has read stays pending.
-/

namespace FrontEnd

namespace Scan

/-- That a scanner splits its input into what it takes and what it leaves, and takes something if
it succeeds. -/
structure Reads (scanner : List Char → Scan TokenKind) : Prop where
  input : ∀ cs, (scanner cs).input = cs
  takes : ∀ cs, (scanner cs).Takes

lemma takes_identifier (cs : List Char) : (identifier cs).Takes := by
  unfold identifier
  cases cs with
  | nil => exact takes_failed _ _ _
  | cons c r =>
    dsimp only
    split
    · exact takes_done_cons _ _ _ _
    · exact takes_failed _ _ _

lemma takes_character (cs : List Char) : (character cs).Takes := by
  unfold character
  cases cs with
  | nil => exact takes_failed _ _ _
  | cons c r =>
    dsimp only
    split
    · exact takes_after_cons _ _ _
    · exact takes_failed _ _ _

lemma takes_string (cs : List Char) : (string cs).Takes := by
  unfold string
  cases cs with
  | nil => exact takes_failed _ _ _
  | cons c r =>
    dsimp only
    split
    · exact takes_after_cons _ _ _
    · exact takes_failed _ _ _

lemma reads_token : Reads token := ⟨input_token, takes_token⟩

lemma reads_identifier : Reads identifier := ⟨input_identifier, takes_identifier⟩

lemma reads_number : Reads number where
  input := input_number
  takes := by
    intro cs
    cases cs with
    | nil => exact takes_unsigned _ _
    | cons c r => exact takes_number c r

lemma reads_character : Reads character := ⟨input_character, takes_character⟩

lemma reads_string : Reads string := ⟨input_string, takes_string⟩

lemma reads_operator : Reads operator := ⟨input_operator, takes_operator⟩

end Scan

namespace Lexing

/-- The cursor that some calls leave. -/
def after (c : TextCursor) (ks : List Call) : TextCursor :=
  ks.foldl (fun c k => (call c k).cursor) c

lemma run_append (c : TextCursor) (ks ls : List Call) :
    run c (ks ++ ls) = run c ks ++ run (after c ks) ls := by
  induction ks generalizing c with
  | nil => rfl
  | cons k ks ih => rw [List.cons_append, run, run, ih, List.cons_append]; rfl

/-- How a call comes from one cursor to another with one piece. A token starts where the pending run
did when its scanner was entered. This is the scanner that is called, or the one for any token in
the loop over all text. Only that loop discards blanks, each with the run pending in front of it. -/
inductive Makes (k : Call) : TextCursor → Piece → TextCursor → Prop
  | token {c d : TextCursor} {scanner : Call} {t : Token}
      (hk : scanner = k ∨ k = .all ∧ scanner = .token ∧ ∃ b r, c.rest = b :: r ∧ isBlank b = false)
      (h : call c scanner = ⟨.ok (.token t), [.token t], d⟩) (hstart : t.offset = c.pendingStart) :
      Makes k c (.token t) d
  | skipped {c : TextCursor} {b : Char} {r : List Char} (hk : k = .all) (h : c.rest = b :: r)
      (hb : isBlank b = true) :
      Makes k c (.skipped c.pendingStart (c.pending ++ [b])) (c.advance 1).skip

/-- One piece after the other. -/
inductive MakesAll (k : Call) : TextCursor → List Piece → TextCursor → Prop
  | nil (c : TextCursor) : MakesAll k c [] c
  | cons {c d e : TextCursor} {p : Piece} {ps : List Piece} (hp : Makes k c p d)
      (hps : MakesAll k d ps e) : MakesAll k c (p :: ps) e

/-- The tokens that a call returns. -/
def Answer.returned : Answer → List Token
  | tokens ts => ts
  | token t => [t]
  | nothing | truth _ => []

/-- The outcome of the loop over all text that has made a piece before. -/
def Outcome.behind (p : Piece) (o : Outcome) : Outcome :=
  ⟨o.answer.map fun a => .tokens (p.token?.toList ++ a.returned), p :: o.pieces, o.cursor⟩

/-- What one call keeps. -/
structure Keeps (c : TextCursor) (k : Call) (o : Outcome) : Prop where
  sound : o.cursor.Sound
  source : o.cursor.source = c.source
  forward : c.index ≤ o.cursor.index
  tiles : Tiles c.source c.pendingStart o.pieces o.cursor.pendingStart
  made : ∃ d, MakesAll k c o.pieces d
  returned : ∀ a, o.answer = .ok a → a.returned = o.pieces.filterMap Piece.token?
  error : ∀ e, o.answer = .error e → e.offset = o.cursor.index

section

variable {c d : TextCursor} {k : Call} {o : Outcome} {p : Piece} {taken rest : List Char}

/-- A run of some pending characters and some taken ones is a piece of the text. -/
lemma tiles_run (h : c.Sound) (hr : c.rest = taken ++ rest) (hne : taken ≠ [])
    (hstart : p.start = c.pendingStart) (htext : p.text = c.pending ++ taken) :
    Tiles c.source c.pendingStart [p] (c.advance taken.length).skip.pendingStart := by
  rw [h.pendingStart_skip, ← htext]
  refine .cons hstart (by simp [htext, hne]) ?_ (.nil _)
  rw [← h.pending_append_rest, hr, ← List.append_assoc, ← htext, List.take_left]

/-- A failing call leaves what it has taken pending. -/
lemma Keeps.of_error (h : c.Sound) (hr : c.rest = taken ++ rest) (problem : LexicalProblem) :
    Keeps c k ⟨.error ⟨problem, c.index + taken.length⟩, [], c.advance taken.length⟩ where
  sound := h.advance hr
  source := rfl
  forward := Nat.le_add_right _ _
  tiles := by
    rw [TextCursor.pendingStart_advance]
    exact .nil _
  made := ⟨c, .nil c⟩
  returned := by
    intro a ha
    cases ha
  error := by
    intro e he
    cases he
    rfl

/-- A call that returns no token keeps what it moves over pending. -/
lemma Keeps.of_ok (h : c.Sound) (hr : c.rest = taken ++ rest) {a : Answer} (ha : a.returned = []) :
    Keeps c k ⟨.ok a, [], c.advance taken.length⟩ where
  sound := h.advance hr
  source := rfl
  forward := Nat.le_add_right _ _
  tiles := by
    rw [TextCursor.pendingStart_advance]
    exact .nil _
  made := ⟨c, .nil c⟩
  returned := by
    intro b hb
    cases hb
    exact ha
  error := by
    intro e he
    cases he

/-- A call that makes one piece and then goes on keeps what it keeps from there. -/
lemma Keeps.behind (hp : Makes k c p d) (hsource : d.source = c.source)
    (hforward : c.index ≤ d.index) (htiles : Tiles c.source c.pendingStart [p] d.pendingStart)
    (h : Keeps d k o) : Keeps c k (o.behind p) where
  sound := h.sound
  source := h.source.trans hsource
  forward := Nat.le_trans hforward h.forward
  tiles := htiles.append (hsource ▸ h.tiles)
  made := by
    obtain ⟨e, he⟩ := h.made
    exact ⟨e, .cons hp he⟩
  returned := by
    intro a ha
    have hreturned := h.returned
    cases ho : o.answer with
    | error e =>
      rw [Outcome.behind, ho] at ha
      cases ha
    | ok b =>
      rw [Outcome.behind, ho] at ha
      cases ha
      rw [Answer.returned, hreturned b ho]
      cases hp' : p.token? <;> simp [Outcome.behind, hp']
  error := by
    intro e he
    refine h.error e ?_
    cases ho : o.answer with
    | error e' =>
      rw [Outcome.behind, ho] at he
      cases he
      rfl
    | ok b =>
      rw [Outcome.behind, ho] at he
      cases he

/-! ### Scanners -/

/-- The scanner of a call that makes a token. -/
def Call.scanner? : Call → Option (List Char → Scan TokenKind)
  | token => some Scan.token
  | identifier => some Scan.identifier
  | number => some Scan.number
  | character => some Scan.character
  | string => some Scan.string
  | operator => some Scan.operator
  | all | escape | peek _ | accept _ => none

lemma reads_of_scanner? {scanner : List Char → Scan TokenKind} (h : k.scanner? = some scanner) :
    Scan.Reads scanner ∧ call c k = scan scanner c := by
  cases k with
  | token => cases h; exact ⟨Scan.reads_token, rfl⟩
  | identifier => cases h; exact ⟨Scan.reads_identifier, rfl⟩
  | number => cases h; exact ⟨Scan.reads_number, rfl⟩
  | character => cases h; exact ⟨Scan.reads_character, rfl⟩
  | string => cases h; exact ⟨Scan.reads_string, rfl⟩
  | operator => cases h; exact ⟨Scan.reads_operator, rfl⟩
  | all => cases h
  | escape => cases h
  | peek patterns => cases h
  | accept patterns => cases h

/-- A scanner makes a token of the pending run and of what it takes. -/
lemma scan_of_ok {scanner : List Char → Scan TokenKind} {kind : TokenKind} (h : c.Sound)
    (hr : c.rest = (scanner c.rest).taken ++ rest) (ho : (scanner c.rest).outcome = .ok kind) :
    let t : Token := ⟨kind, String.ofList (c.pending ++ (scanner c.rest).taken), c.pendingStart⟩
    scan scanner c =
      ⟨.ok (.token t), [.token t], (c.advance (scanner c.rest).taken.length).skip⟩ := by
  simp only [scan, ho, TextCursor.emit, TextCursor.pendingStart_advance, h.pending_advance hr]

/-- What a failing scanner takes stays pending. -/
lemma scan_of_error {scanner : List Char → Scan TokenKind} {problem : LexicalProblem}
    (ho : (scanner c.rest).outcome = .error problem) :
    scan scanner c = ⟨.error ⟨problem, c.index + (scanner c.rest).taken.length⟩, [],
      c.advance (scanner c.rest).taken.length⟩ := by
  simp only [scan, ho]
  rfl

lemma keeps_scanner {scanner : List Char → Scan TokenKind} (h : c.Sound)
    (hk : k.scanner? = some scanner) : Keeps c k (call c k) := by
  obtain ⟨hreads, hcall⟩ := reads_of_scanner? (c := c) hk
  have hr : c.rest = (scanner c.rest).taken ++ (scanner c.rest).rest := (hreads.input c.rest).symm
  cases ho : (scanner c.rest).outcome with
  | ok kind =>
    have hmakes := Makes.token (.inl rfl) (hcall.trans (scan_of_ok h hr ho)) rfl
    rw [hcall, scan_of_ok h hr ho]
    exact {
      sound := (h.advance hr).skip
      source := rfl
      forward := Nat.le_add_right _ _
      tiles := tiles_run h hr (hreads.takes _ kind ho) rfl (by simp [Piece.text])
      made := ⟨_, .cons hmakes (.nil _)⟩
      returned := by
        intro a ha
        cases ha
        rfl
      error := by
        intro e he
        cases he }
  | error problem =>
    rw [hcall, scan_of_error ho]
    exact .of_error h hr problem

/-! ### The loop over all text -/

/-- What a cut comes to, as the outcome of a call. -/
def Outcome.ofCut (source : List Char) (r : Cut) : Outcome where
  answer :=
    match r.problem with
    | none => .ok (.tokens r.tokens)
    | some problem => .error ⟨problem, r.offset⟩
  pieces := r.pieces
  cursor := ⟨source, r.offset, r.pending.length⟩

lemma scanAll_eq (c : TextCursor) :
    scanAll c = .ofCut c.source (cut c.pendingStart c.pending c.rest) := by
  simp only [scanAll, Outcome.ofCut]
  cases (cut c.pendingStart c.pending c.rest).problem <;> rfl

lemma ofCut_after (source : List Char) (p : Piece) (r : Cut) :
    Outcome.ofCut source (r.after p) = (Outcome.ofCut source r).behind p := by
  have htokens : (r.after p).tokens = p.token?.toList ++ r.tokens := by cases p <;> rfl
  simp only [Outcome.ofCut, Outcome.behind, htokens]
  cases hp : r.problem <;> simp [Cut.after, hp, Except.map, Answer.returned, Cut.offset]

lemma scanAll_of_nil (h : c.Sound) (hr : c.rest = []) : scanAll c = ⟨.ok (.tokens []), [], c⟩ := by
  have hcursor : (⟨c.source, c.pendingStart + c.pending.length, c.pending.length⟩ : TextCursor) =
      c := by
    rw [h.length_pending, h.pendingStart_add]
  rw [scanAll_eq, hr, cut]
  exact congrArg (Outcome.mk (.ok (.tokens [])) []) hcursor

/-- The loop goes on behind a piece with nothing pending. -/
lemma scanAll_skip (h : c.Sound) (hr : c.rest = taken ++ rest) :
    scanAll (c.advance taken.length).skip =
      .ofCut c.source (cut (c.pendingStart + (c.pending ++ taken).length) [] rest) := by
  have hrest : (c.advance taken.length).skip.rest = rest := TextCursor.rest_advance hr
  rw [scanAll_eq, hrest, h.pendingStart_skip, (h.advance hr).pending_skip]
  rfl

/-- Blanks are moved over and discarded with the run pending in front of them. -/
lemma scanAll_of_blank (h : c.Sound) {b : Char} {r : List Char} (hr : c.rest = b :: r)
    (hb : isBlank b = true) : scanAll c =
      (scanAll (c.advance 1).skip).behind (.skipped c.pendingStart (c.pending ++ [b])) := by
  have hnext : scanAll (c.advance 1).skip = _ := scanAll_skip h (show c.rest = [b] ++ r from hr)
  rw [hnext, scanAll_eq, hr, cut_of_blank hb, ofCut_after]

/-- Anything else is left to the scanner for any token. -/
lemma scanAll_of_token (h : c.Sound) {b : Char} {r : List Char} (hr : c.rest = b :: r)
    (hb : isBlank b = false) {kind : TokenKind} (hk : (Scan.token c.rest).outcome = .ok kind) :
    scanAll c = (scanAll (c.advance (Scan.token c.rest).taken.length).skip).behind
      (.token ⟨kind, String.ofList (c.pending ++ (Scan.token c.rest).taken), c.pendingStart⟩) := by
  rw [scanAll_skip h (Scan.input_token c.rest).symm, scanAll_eq]
  rw [hr] at hk ⊢
  rw [cut_of_token hb hk, ofCut_after]

/-- A failure of that scanner ends the loop. -/
lemma scanAll_of_error (h : c.Sound) {b : Char} {r : List Char} (hr : c.rest = b :: r)
    (hb : isBlank b = false) {problem : LexicalProblem}
    (hp : (Scan.token c.rest).outcome = .error problem) : scanAll c = call c .token := by
  have hcall : call c .token = _ := scan_of_error hp
  have hlength : (c.pending ++ (Scan.token c.rest).taken).length =
      c.length + (Scan.token c.rest).taken.length := by
    rw [List.length_append, h.length_pending]
  have hindex : c.pendingStart + (c.length + (Scan.token c.rest).taken.length) =
      c.index + (Scan.token c.rest).taken.length := by
    rw [← Nat.add_assoc, h.pendingStart_add]
  rw [hcall, scanAll_eq]
  rw [hr] at hp hlength hindex ⊢
  simp only [cut_of_error hb hp, Outcome.ofCut, Cut.offset, hlength, hindex]
  rfl

/-- The loop keeps what each of its rounds keeps. -/
lemma keeps_all (h : c.Sound) : Keeps c .all (call c .all) := by
  -- Every round leaves less text ahead, and the loop goes on as if it was called again there.
  induction hn : c.rest.length using Nat.strongRecOn generalizing c with
  | _ n ih =>
    cases hr : c.rest with
    | nil =>
      have hcall : call c .all = _ := scanAll_of_nil h hr
      rw [hcall]
      exact .of_ok h (List.nil_append c.rest).symm rfl
    | cons b r =>
      cases hb : isBlank b with
      | true =>
        have hone : c.rest = [b] ++ r := hr
        have hcall : call c .all = _ := scanAll_of_blank h hr hb
        have hlt : (c.advance 1).skip.rest.length < n := by
          have hrest : (c.advance 1).skip.rest = r := TextCursor.rest_advance hone
          rw [← hn, hrest, hr]
          exact Nat.lt_succ_self _
        have hkeeps := ih _ hlt (h.advance hone).skip rfl
        rw [hcall]
        exact hkeeps.behind (.skipped rfl hr hb) rfl (Nat.le_add_right _ _)
          (tiles_run h hone (List.cons_ne_nil _ _) rfl rfl)
      | false =>
        have hinput : c.rest = (Scan.token c.rest).taken ++ (Scan.token c.rest).rest :=
          (Scan.input_token c.rest).symm
        cases ho : (Scan.token c.rest).outcome with
        | error problem =>
          have hcall : call c .all = _ := (scanAll_of_error h hr hb ho).trans (scan_of_error ho)
          rw [hcall]
          exact .of_error h hinput problem
        | ok kind =>
          have hcall : call c .all = _ := scanAll_of_token h hr hb ho
          have hlt : (c.advance (Scan.token c.rest).taken.length).skip.rest.length < n := by
            have hrest : (c.advance (Scan.token c.rest).taken.length).skip.rest =
              (Scan.token c.rest).rest := TextCursor.rest_advance hinput
            rw [← hn, hrest]
            exact Scan.length_rest_token_lt ho
          have hkeeps := ih _ hlt (h.advance hinput).skip rfl
          rw [hcall]
          exact hkeeps.behind
            (.token (.inr ⟨rfl, rfl, b, r, hr, hb⟩) (scan_of_ok h hinput ho) rfl) rfl
            (Nat.le_add_right _ _)
            (tiles_run h hinput (Scan.takes_token _ kind ho) rfl (by simp [Piece.text]))

lemma keeps_escape (h : c.Sound) : Keeps c .escape (call c .escape) := by
  have hinput : c.rest = (Scan.escape c.rest).taken ++ (Scan.escape c.rest).rest :=
    (Scan.input_escape c.rest).symm
  cases ho : (Scan.escape c.rest).outcome with
  | error problem =>
    have hcall : call c .escape =
        ⟨.error ⟨problem, c.index + (Scan.escape c.rest).taken.length⟩, [],
          c.advance (Scan.escape c.rest).taken.length⟩ := by
      simp only [call, scanEscape, ho]
      rfl
    rw [hcall]
    exact .of_error h hinput problem
  | ok u =>
    have hcall : call c .escape =
        ⟨.ok .nothing, [], c.advance (Scan.escape c.rest).taken.length⟩ := by
      simp only [call, scanEscape, ho]
    rw [hcall]
    exact .of_ok h hinput rfl

lemma keeps_peek (h : c.Sound) (ps : List CharacterPattern) :
    Keeps c (.peek ps) (call c (.peek ps)) :=
  .of_ok h (List.nil_append c.rest).symm rfl

/-- As many characters are ahead as are asked for. -/
lemma exists_taken {ps : List CharacterPattern} {cs : List Char} (h : textStartsAs ps cs = true) :
    ∃ taken rest, cs = taken ++ rest ∧ taken.length = ps.length := by
  induction ps generalizing cs with
  | nil => exact ⟨[], cs, rfl, rfl⟩
  | cons p ps ih =>
    cases cs with
    | nil => cases h
    | cons c cs =>
      simp only [textStartsAs, Bool.and_eq_true] at h
      obtain ⟨taken, rest, rfl, hlength⟩ := ih h.2
      exact ⟨c :: taken, rest, rfl, by simp [hlength]⟩

/-- Characters are taken one for each pattern, or not at all. -/
lemma accept_cases (c : TextCursor) (ps : List CharacterPattern) :
    (∃ taken rest, c.rest = taken ++ rest ∧ taken.length = ps.length ∧
      call c (.accept ps) = ⟨.ok (.truth true), [], c.advance ps.length⟩) ∨
    call c (.accept ps) = ⟨.ok (.truth false), [], c⟩ := by
  cases h : textStartsAs ps c.rest with
  | true =>
    obtain ⟨taken, rest, hr, hlength⟩ := exists_taken h
    exact .inl ⟨taken, rest, hr, hlength, by simp only [call, h, if_true]⟩
  | false => exact .inr (by simp only [call, h]; rfl)

lemma keeps_accept (h : c.Sound) (ps : List CharacterPattern) :
    Keeps c (.accept ps) (call c (.accept ps)) := by
  obtain ⟨taken, rest, hr, hlength, ho⟩ | ho := accept_cases c ps
  · rw [ho, ← hlength]
    exact .of_ok h hr rfl
  · rw [ho]
    exact .of_ok h (List.nil_append c.rest).symm rfl

/-- Every call keeps what there is to keep. -/
lemma keeps_call (h : c.Sound) (k : Call) : Keeps c k (call c k) := by
  cases k with
  | all => exact keeps_all h
  | token | identifier | number | character | string | operator => exact keeps_scanner h rfl
  | escape => exact keeps_escape h
  | peek ps => exact keeps_peek h ps
  | accept ps => exact keeps_accept h ps

end

/-! ### Any calls in a row -/

/-- The pieces made by some calls fill the text in front of what is pending. -/
theorem tiles_run_start (source : String) (ks : List Call) :
    let c := after (.start source) ks
    c.Sound ∧ c.source = source.toList ∧
      Tiles source.toList 0 ((run (.start source) ks).flatMap Outcome.pieces) c.pendingStart := by
  induction ks using List.reverseRecOn with
  | nil => exact ⟨TextCursor.sound_start source, rfl, .nil 0⟩
  | append_singleton ks k ih =>
    obtain ⟨hsound, hsource, htiles⟩ := ih
    have hkeeps := keeps_call hsound k
    have hafter : after (.start source) (ks ++ [k]) =
        (call (after (.start source) ks) k).cursor := by simp [after]
    have hrun : run (.start source) (ks ++ [k]) =
        run (.start source) ks ++ [call (after (.start source) ks) k] := run_append _ ks [k]
    rw [hafter, hrun, List.flatMap_append, List.flatMap_singleton]
    exact ⟨hkeeps.sound, hkeeps.source.trans hsource, htiles.append (hsource ▸ hkeeps.tiles)⟩

/-- That the pieces made, the pending run and the index of a cursor over a source agree: what is
made stands in the source in order, and every place in front of the index either belongs to the
pending run or to just one of the pieces. -/
structure Consistent (source : String) (c : TextCursor) (pieces : List Piece) : Prop where
  source_eq : c.source = source.toList
  bounds : c.length ≤ c.index ∧ c.index ≤ source.length
  slices : ∀ p ∈ pieces, 0 ≤ p.start ∧ p.text ≠ [] ∧
    p.text = (source.toList.drop p.start.toNat).take p.text.length
  apart : pieces.Pairwise fun p q => p.stop ≤ q.start
  pending : ∀ i, c.pendingStart ≤ i → ∀ p ∈ pieces, ¬p.Covers i
  covered : ∀ i, i < c.pendingStart → ∃! p, p ∈ pieces ∧ p.Covers i

lemma consistent_of_tiles {source : String} {c : TextCursor} {pieces : List Piece} (h : c.Sound)
    (hsource : c.source = source.toList) (htiles : Tiles source.toList 0 pieces c.pendingStart) :
    Consistent source c pieces where
  source_eq := hsource
  bounds := ⟨h.pending, by have hinside := h.inside; rwa [hsource, String.length_toList] at hinside⟩
  slices := by
    intro p hp
    obtain ⟨hstart, -, hne, htext⟩ := htiles.mem hp
    exact ⟨hstart, hne, htext⟩
  apart := htiles.pairwise
  pending := by
    intro i hi p hp hcovers
    obtain ⟨-, hstop, -⟩ := htiles.mem hp
    have hlt := hcovers.2
    omega
  covered := fun i hi => htiles.covered (Nat.zero_le i) hi

/-- Whatever has been called before, a call leaves the lexer consistent, also if it fails: no call
reads past the end or goes back, an error is reported at the index, every token starts where the run
pending at its scanner did, and an accepting call takes one character for each pattern or none. -/
theorem lexer_stays_consistent (source : String) (earlier : List Call) (k : Call) :
    let c := after (.start source) earlier
    let o := call c k
    run (.start source) (earlier ++ [k]) = run (.start source) earlier ++ [o] ∧
    Consistent source o.cursor ((run (.start source) (earlier ++ [k])).flatMap Outcome.pieces) ∧
    c.index ≤ o.cursor.index ∧
    (∀ e, o.answer = .error e → e.offset = o.cursor.index) ∧
    (∃ d, MakesAll k c o.pieces d) ∧
    (∀ a, o.answer = .ok a → a.returned = o.pieces.filterMap Piece.token?) ∧
    ∀ ps, k = .accept ps → (o.answer = .ok (.truth true) ∧ o.cursor = c.advance ps.length) ∨
      (o.answer = .ok (.truth false) ∧ o.cursor = c) := by
  intro c o
  obtain ⟨hsound, -⟩ := tiles_run_start source earlier
  obtain ⟨hsound', hsource, htiles⟩ := tiles_run_start source (earlier ++ [k])
  have hafter : after (.start source) (earlier ++ [k]) = o.cursor := by simp [after, o, c]
  have hkeeps := keeps_call hsound k
  rw [hafter] at hsound' hsource htiles
  refine ⟨run_append _ earlier [k], consistent_of_tiles hsound' hsource htiles, hkeeps.forward,
    hkeeps.error, hkeeps.made, hkeeps.returned, ?_⟩
  rintro ps rfl
  obtain ⟨taken, rest, -, -, ho⟩ | ho := accept_cases c ps
  · exact .inl ⟨congrArg Outcome.answer ho, congrArg Outcome.cursor ho⟩
  · exact .inr ⟨congrArg Outcome.answer ho, congrArg Outcome.cursor ho⟩

end Lexing

end FrontEnd
