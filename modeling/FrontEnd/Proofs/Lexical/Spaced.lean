import FrontEnd.Proofs.Lexical.LongestMatch

/-!
# Tokens written with spaces

Tokens whose texts are written one behind the other with a space between them are cut into just
these tokens again, at the offsets where they were written.
-/

namespace FrontEnd

namespace Token

/-- What the rules of the grammar see of a token. -/
def look (t : Token) : TokenKind × String := (t.kind, t.text)

/-- A token that the lexer could have made. -/
def Genuine (t : Token) : Prop := t.kind.Spells t.text.toList

end Token

/-- A name or a keyword. -/
def word (s : String) : Token := ⟨.identifier, s, 0⟩

/-- An operator or a mark. -/
def mark (s : String) : Token := ⟨.operator, s, 0⟩

/-- The texts of tokens with one space between each two. -/
def spaced (ts : List Token) : String := String.intercalate " " (ts.map Token.text)

/-- Tokens at the offsets that they have when they are written from some offset on. -/
def placed (start : Nat) : List Token → List Token
  | [] => []
  | t :: ts => { t with offset := start } :: placed (start + t.length + 1) ts

lemma look_placed (start : Nat) (ts : List Token) :
    (placed start ts).map Token.look = ts.map Token.look := by
  induction ts generalizing start with
  | nil => rfl
  | cons t ts ih =>
    rw [placed, List.map_cons, List.map_cons, ih]
    rfl

lemma toList_spaced_cons (t u : Token) (ts : List Token) :
    (spaced (t :: u :: ts)).toList = t.text.toList ++ ' ' :: (spaced (u :: ts)).toList := by
  simp only [spaced, String.toList_intercalate, List.map_cons, List.intercalate_cons_cons]
  simp

lemma cut_nil (o : Nat) : cut o [] [] = ⟨[], o, [], [], none⟩ := by
  rw [cut]

lemma cut_blank {c : Char} (hc : isBlank c = true) (o : Nat) (r : List Char) :
    cut o [] (c :: r) = (cut (o + 1) [] r).after (.skipped o [c]) := cut_of_blank hc o [] r

/-- A token at the front of a text is the first piece of its cut. -/
lemma cut_token {kind : TokenKind} {p w : List Char} (hp : kind.Spells p)
    (ht : Scan.token (p ++ w) = Scan.done p w kind) (o : Nat) :
    cut o [] (p ++ w) =
      (cut (o + p.length) [] w).after (.token ⟨kind, String.ofList p, o⟩) := by
  cases p with
  | nil => exact absurd rfl hp.ne_nil
  | cons c p =>
    rw [List.cons_append] at ht ⊢
    have hcut := cut_of_token hp.not_blank (congrArg Scan.outcome ht) o []
    rwa [ht] at hcut

lemma cut_spaced {ts : List Token} (h : ∀ t ∈ ts, t.Genuine) (o : Nat) :
    (cut o [] (spaced ts).toList).problem = none ∧
      (cut o [] (spaced ts).toList).tokens = placed o ts := by
  induction ts generalizing o with
  | nil =>
    rw [show (spaced []).toList = [] from rfl, cut_nil]
    exact ⟨rfl, rfl⟩
  | cons t ts ih =>
    have ht : t.kind.Spells t.text.toList := h t (List.mem_cons_self ..)
    have ih := ih fun u hu => h u (List.mem_cons_of_mem _ hu)
    cases ts with
    | nil =>
      have hs : (spaced [t]).toList = t.text.toList ++ [] := by simp [spaced]
      rw [hs, cut_token ht (Scan.token_before_blank ht (by simp)), cut_nil]
      exact ⟨rfl, by simp [Cut.after, Cut.tokens, Piece.token?, placed]⟩
    | cons u ts =>
      rw [toList_spaced_cons, cut_token ht (Scan.token_before_blank ht (by simp [isBlank])),
        cut_blank (by rfl)]
      obtain ⟨hn, htokens⟩ := ih (o + t.text.toList.length + 1)
      refine ⟨hn, ?_⟩
      simp only [Cut.tokens] at htokens
      simp only [Cut.after, Cut.tokens, List.filterMap_cons, Piece.token?, htokens]
      simp [placed, Token.length, String.length_toList]

/-- Tokens written with spaces are cut into the same tokens. -/
theorem tokenize_spaced {ts : List Token} (h : ∀ t ∈ ts, t.Genuine) :
    tokenize (spaced ts) = .ok (placed 0 ts) := by
  obtain ⟨hn, ht⟩ := cut_spaced h 0
  simp only [tokenize, hn, ht]

/-- A token that the lexer makes of its own text. -/
def Token.Made (t : Token) : Prop := tokenize t.text = .ok [t]

lemma Token.Genuine.made {t : Token} (hg : t.Genuine) (ho : t.offset = 0) : t.Made := by
  have hall : ∀ u ∈ [t], u.Genuine := by simpa using hg
  have h := tokenize_spaced hall
  have htext : spaced [t] = t.text := by simp [spaced]
  have hplaced : placed 0 [t] = [t] := by
    cases t
    simp_all [placed]
  rw [htext, hplaced] at h
  exact h

/-- Every token of a source is one that the lexer could have made. -/
theorem genuine_of_tokenize {source : String} {ts : List Token} (h : tokenize source = .ok ts) :
    ∀ t ∈ ts, t.Genuine := by
  unfold tokenize at h
  dsimp only at h
  split at h
  · cases h
  · next hp =>
    cases h
    exact ((longestScan_cut rfl hp).longestMatch [] rfl).spelled

end FrontEnd
