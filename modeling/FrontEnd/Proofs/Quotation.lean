import FrontEnd.Proofs.Code
import FrontEnd.Proofs.Grammar.Acceptance
import FrontEnd.Proofs.Printing.Constant

/-!
# Quoted literals

What stands between the quotes of a literal splits into items in exactly one way, each a character
or an escape, and the literal denotes the characters of its items. Every text is denoted by the
literals that write each of its characters as one of the items that denote it.
-/

namespace FrontEnd

open Grammar Rule

/-- A part of a literal: a character that stands for itself, or an escape. -/
inductive Item where
  | raw (c : Char) (h : c ≠ '\\')
  | escape (letter value : Char) (h : escape? letter = some value)

namespace Item

def text : Item → List Char
  | raw c _ => [c]
  | escape letter _ _ => ['\\', letter]

/-- The character that an item denotes. -/
def value : Item → Char
  | raw c _ => c
  | escape _ value _ => value

/-- The number of characters of the item that a text starts with. -/
def width : List Char → Nat
  | '\\' :: _ => 2
  | _ => 1

lemma text_injective {item other : Item} (h : item.text = other.text) : item = other := by
  cases item with
  | raw c hc =>
    cases other with
    | raw d hd =>
      cases h
      rfl
    | escape letter value hl => cases h
  | escape letter value hl =>
    cases other with
    | raw d hd => cases h
    | escape letter' value' hl' =>
      cases h
      rw [hl] at hl'
      cases hl'
      rfl

/-- A text splits into items in one way at most. -/
lemma isCode_text : IsCode (fun _ => True) text width where
  ne_nil item _ := by cases item <;> simp [text]
  width_append item _ rest := by
    cases item with
    | raw c hc => simp [text, width, hc]
    | escape letter value h => rfl
  injective _ _ _ _ := text_injective

lemma unescape_text (item : Item) (cs : List Char) :
    unescape (item.text ++ cs) = item.value :: unescape cs := by
  cases item with
  | raw c h => exact unescape_plain h cs
  | escape letter value h => exact unescape_escape h cs

/-- Items are unescaped one by one. -/
lemma unescape_flatMap_text (items : List Item) :
    unescape (items.flatMap text) = items.map value := by
  induction items with
  | nil => rfl
  | cons item items ih => rw [List.flatMap_cons, unescape_text, ih, List.map_cons]

lemma exists_of_isItem {quote : Char} {cs : List Char} (h : IsItem quote cs) :
    ∃ item : Item, item.text = cs := by
  obtain ⟨c, rfl, -, hc, -⟩ | ⟨letter, rfl, hl⟩ := h
  · exact ⟨raw c hc, rfl⟩
  · obtain ⟨value, hv⟩ := Option.isSome_iff_exists.mp hl
    exact ⟨escape letter value hv, rfl⟩

lemma exists_of_isItems {quote : Char} {parts : List (List Char)}
    (h : ∀ cs ∈ parts, IsItem quote cs) :
    ∃ items : List Item, items.flatMap text = parts.flatten := by
  induction parts with
  | nil => exact ⟨[], rfl⟩
  | cons cs parts ih =>
    obtain ⟨item, hitem⟩ := exists_of_isItem (h cs (List.mem_cons_self ..))
    obtain ⟨items, hitems⟩ := ih fun ds hds => h ds (List.mem_cons_of_mem cs hds)
    exact ⟨item :: items, by rw [List.flatMap_cons, hitem, hitems, List.flatten_cons]⟩

/-- The letter of the escape that denotes a character. -/
def letter? : Char → Option Char
  | '\x08' => some 'b'
  | '\n' => some 'n'
  | '\r' => some 'r'
  | '\t' => some 't'
  | '\'' => some '\''
  | '"' => some '"'
  | '\\' => some '\\'
  | _ => none

lemma escape?_of_letter? {c letter : Char} (h : letter? c = some letter) :
    escape? letter = some c := by
  unfold letter? at h
  split at h <;> cases h <;> rfl

/-- The item that a character is written as. An escape is taken where it has to be, and where it is
asked for and there is one. -/
def write (quote : Char) (byEscape : Bool) (c : Char) : Item :=
  match h : letter? c with
  | none => raw c (by rintro rfl; cases h)
  | some letter =>
    if hc : byEscape ∨ c = quote ∨ c = '\\' ∨ c = '\n' then escape letter c (escape?_of_letter? h)
    else raw c fun he => hc (.inr (.inr (.inl he)))

lemma value_write (quote : Char) (byEscape : Bool) (c : Char) :
    (write quote byEscape c).value = c := by
  unfold write
  split
  · rfl
  · split <;> rfl

lemma isItem_write {quote : Char} (hq : IsQuote quote) (byEscape : Bool) (c : Char) :
    IsItem quote (write quote byEscape c).text := by
  unfold write
  split
  · next h =>
    refine .inl ⟨c, rfl, ?_, ?_, ?_⟩
    · rintro rfl
      rcases hq with rfl | rfl <;> cases h
    · rintro rfl
      cases h
    · rintro rfl
      cases h
  · next letter h =>
    split
    · exact .inr ⟨letter, rfl, by simp [isEscapeLetter, escape?_of_letter? h]⟩
    · next hc =>
      simp only [not_or] at hc
      exact .inl ⟨c, rfl, hc.2.1, hc.2.2.1, hc.2.2.2⟩

end Item

/-- The two kinds of literals between quotes. -/
inductive Quotation where
  | character
  | string

namespace Quotation

/-- The quote around a literal. -/
def mark : Quotation → Char
  | character => '\''
  | string => '"'

def kind : Quotation → TokenKind
  | character => .character
  | string => .string

/-- The constant with a text. -/
def literal : Quotation → String → Literal
  | character => .character
  | string => .string

/-- Items between quotes. -/
def text (q : Quotation) (items : List Item) : String :=
  String.ofList (q.mark :: (items.flatMap Item.text ++ [q.mark]))

/-- The text that items denote. -/
def denoted (items : List Item) : String := String.ofList (items.map Item.value)

lemma isQuote_mark (q : Quotation) : IsQuote q.mark := by
  cases q with
  | character => exact .inl rfl
  | string => exact .inr rfl

lemma unquote_text (q : Quotation) (items : List Item) :
    unquote (q.text items) = items.flatMap Item.text := by
  simp [unquote, text]

lemma text_injective {q : Quotation} {items others : List Item}
    (h : q.text items = q.text others) : items = others := by
  have hbody : items.flatMap Item.text = others.flatMap Item.text := by
    rw [← unquote_text q, h, unquote_text]
  exact Item.isCode_text.flatMap_injective (fun _ _ => trivial) (fun _ _ => trivial) hbody

lemma literalText_text (q : Quotation) (items : List Item) :
    literalText (q.text items) = denoted items := by
  rw [literalText, unquote_text, Item.unescape_flatMap_text, denoted]

/-- A literal of the lexer is items between quotes, and one item if it is a character. -/
lemma exists_items {t : Token} (hg : t.Genuine) {q : Quotation} (hk : t.kind = q.kind) :
    ∃ items, t.text = q.text items ∧ (q = character → items.length = 1) := by
  have hs : q.kind.Spells t.text.toList := hk ▸ hg
  cases q with
  | character =>
    obtain ⟨part, ht, hpart⟩ := hs
    obtain ⟨item, rfl⟩ := Item.exists_of_isItem hpart
    refine ⟨[item], ?_, fun _ => rfl⟩
    rw [← String.ofList_toList (s := t.text), ht]
    simp [text, mark]
  | string =>
    obtain ⟨parts, ht, hparts⟩ := hs
    obtain ⟨items, hitems⟩ := Item.exists_of_isItems hparts
    refine ⟨items, ?_, nofun⟩
    rw [← String.ofList_toList (s := t.text), ht, ← hitems]
    rfl

lemma denotes_of_kind {t : Token} {q : Quotation} (hk : t.kind = q.kind) :
    Denotes t (q.literal (literalText t.text)) := by
  cases q with
  | character => exact .character hk
  | string => exact .string hk

lemma usable_of_kind {t : Token} (hg : t.Genuine) {q : Quotation} (hk : t.kind = q.kind) :
    t.Usable := by
  refine ⟨hg, fun hi => ?_⟩
  rw [hk] at hi
  cases q <;> cases hi

/-- Wherever an operand can stand, a literal is read as the constant that its items denote. -/
lemma operand_text {t : Token} (hg : t.Genuine) {q : Quotation} (hk : t.kind = q.kind)
    {items : List Item} (ht : t.text = q.text items) (e : Rule Expression) (rest : List Token) :
    operand e (t :: rest) = .ok (.literal (q.literal (denoted items))) rest := by
  have hconstant := constant?_of_denotes hg (usable_of_kind hg hk).2 (denotes_of_kind hk)
  rw [operand_of_constant hconstant, ht, literalText_text]

/-- The items that a text is written as, each by an escape if that is asked for at its place. -/
def written (q : Quotation) (byEscape : Nat → Bool) (v : String) : List Item :=
  v.toList.mapIdx fun i c => Item.write q.mark (byEscape i) c

lemma denoted_written (q : Quotation) (byEscape : Nat → Bool) (v : String) :
    denoted (q.written byEscape v) = v := by
  have hvalues : (q.written byEscape v).map Item.value = v.toList := by
    refine List.ext_getElem (by simp [written]) fun i _ _ => ?_
    simp [written, Item.value_write]
  rw [denoted, hvalues, String.ofList_toList]

/-- The source that a text is written as. -/
def source (q : Quotation) (byEscape : Nat → Bool) (v : String) : String :=
  q.text (q.written byEscape v)

section Source

variable {q : Quotation} {v : String} (hv : q = character → v.length = 1)

include hv

lemma genuine_source (byEscape : Nat → Bool) :
    Token.Genuine ⟨q.kind, q.source byEscape v, 0⟩ := by
  have hitems : ∀ item ∈ q.written byEscape v, IsItem q.mark item.text := by
    intro item hitem
    obtain ⟨i, hi, rfl⟩ := List.mem_mapIdx.mp hitem
    exact Item.isItem_write q.isQuote_mark _ _
  have hlength : (q.written byEscape v).length = v.length := by
    rw [written, List.length_mapIdx, String.length_toList]
  have htext : (q.source byEscape v).toList =
      q.mark :: ((q.written byEscape v).flatMap Item.text ++ [q.mark]) := String.toList_ofList
  cases q with
  | character =>
    obtain ⟨item, hitem⟩ := List.length_eq_one_iff.mp (hlength.trans (hv rfl))
    rw [hitem] at hitems htext
    exact ⟨item.text, by simpa [mark] using htext, hitems item (by simp)⟩
  | string =>
    refine ⟨(string.written byEscape v).map Item.text,
      by simpa [List.flatMap_def, mark] using htext, fun part hpart => ?_⟩
    obtain ⟨item, hitem, rfl⟩ := List.mem_map.mp hpart
    exact hitems item hitem

/-- A source that is one literal is one token. -/
lemma tokenize_source (byEscape : Nat → Bool) :
    tokenize (q.source byEscape v) = .ok [⟨q.kind, q.source byEscape v, 0⟩] :=
  (genuine_source hv byEscape).made rfl

/-- A source that is one literal is read as the constant of the text that was written. -/
lemma parseAs_source (byEscape : Nat → Bool) :
    parseAs .expression (q.source byEscape v) =
      .ok (.expression (.literal (q.literal v))) := by
  obtain ⟨t, ht⟩ : ∃ t : Token, t = ⟨q.kind, q.source byEscape v, 0⟩ := ⟨_, rfl⟩
  have hg : t.Genuine := ht ▸ genuine_source hv byEscape
  have hk : t.kind = q.kind := by rw [ht]
  have hdenotes : Denotes t (q.literal v) := by
    have htext : literalText t.text = v := by
      rw [ht]
      exact (q.literalText_text _).trans (q.denoted_written byEscape v)
    exact htext ▸ denotes_of_kind hk
  have hlevel : Reserved (.level 0) [t] (.literal (q.literal v)) :=
    derives_lower (Nat.zero_le 4) (Nat.le_refl 4) (.secondary (.primary (.constant hdenotes)))
  have hsound : Sound [t] := by simpa [Sound] using usable_of_kind hg hk
  have hread := recognizes_of_derives (.expression hlevel) hsound maxNesting
    (by simp [Expression.nesting, Expression.inner, maxNesting]) [] (by simp [Stops])
  have hconstruct : construct maxNesting .expression [t] =
      .ok (.expression (.literal (q.literal v))) [] := bind_of_ok hread _
  rw [parseAs, readSource_of_tokenize _ (tokenize_source hv byEscape), ← ht, hconstruct]

end Source

end Quotation

/-- Literals are read as their items say, in both directions. What stands between the quotes of a
token splits into items in one way, and the token is read as the constant of the characters they
denote; and however a text is written in items, it is cut into one token and read as itself. -/
theorem literals_read_as_written :
    (∀ source ts, tokenize source = .ok ts → ∀ t ∈ ts, ∀ q : Quotation, t.kind = q.kind →
      ∃ items, (∀ others, t.text = q.text others ↔ others = items) ∧
        (∀ e rest, operand e (t :: rest) =
          .ok (.literal (q.literal (Quotation.denoted items))) rest) ∧
        (Quotation.denoted items).length = items.length ∧
        (q = .character → items.length = 1)) ∧
    (∀ byEscape v,
      let source := Quotation.string.source byEscape v
      tokenize source = .ok [⟨.string, source, 0⟩] ∧
        parseAs .expression source = .ok (.expression (.literal (.string v)))) ∧
    ∀ byEscape c,
      let source := Quotation.character.source byEscape (String.singleton c)
      tokenize source = .ok [⟨.character, source, 0⟩] ∧
        parseAs .expression source =
          .ok (.expression (.literal (.character (String.singleton c)))) := by
  have hany : ∀ v : String, Quotation.string = .character → v.length = 1 := nofun
  have hone : ∀ c, Quotation.character = .character → (String.singleton c).length = 1 :=
    fun c _ => String.length_singleton
  refine ⟨?_, fun byEscape v => ⟨Quotation.tokenize_source (hany v) byEscape,
      Quotation.parseAs_source (hany v) byEscape⟩,
    fun byEscape c => ⟨Quotation.tokenize_source (hone c) byEscape,
      Quotation.parseAs_source (hone c) byEscape⟩⟩
  intro source ts h t ht q hk
  have hg := genuine_of_tokenize h t ht
  obtain ⟨items, htext, hlength⟩ := Quotation.exists_items hg hk
  refine ⟨items, fun others => ?_, Quotation.operand_text hg hk htext, ?_, hlength⟩
  · rw [htext]
    exact ⟨fun ho => (Quotation.text_injective ho).symm, fun ho => by rw [ho]⟩
  · simp [Quotation.denoted]

theorem backslashes_pair_from_the_left :
    operand (fail .operand) [⟨.string, "\"\\\\\\\"\"", 0⟩] = .ok (.literal (.string "\\\"")) [] := by
  have h : tokenize "\"\\\\\\\"\"" = .ok [⟨.string, "\"\\\\\\\"\"", 0⟩] := by decide +kernel
  obtain ⟨items, honly, hread, -⟩ :=
    literals_read_as_written.1 _ _ h _ (List.mem_singleton.mpr rfl) .string rfl
  obtain rfl := (honly [.escape '\\' '\\' rfl, .escape '"' '"' rfl]).mp (by decide)
  exact hread _ []

end FrontEnd
