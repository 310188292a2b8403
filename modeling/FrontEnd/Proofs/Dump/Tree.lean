import FrontEnd.Proofs.Dump.Heading

/-!
# Dumps of well-spelled trees are unambiguous

The first word of a heading tells the kind of its node. The names in a heading, the number of
arguments in that of a call, and the number and kinds of the outlines below tell the parts.
-/

namespace FrontEnd

namespace Outline

@[simp] def heading : Outline → String
  | entry heading _ => heading
  | obstacle _ => ""

/-- The letters that the heading of an outline starts with. -/
def word (o : Outline) : List Char := o.heading.toList.takeWhile Char.isAlpha

/-- Outlines of one kind in front of outlines of another are told from these. -/
lemma append_injective_of_word {os os' us us' : List Outline} {v w : List Char} (hne : v ≠ w)
    (ho : ∀ o ∈ os, o.word = v) (ho' : ∀ o ∈ os', o.word = v) (hu : ∀ u ∈ us, u.word = w)
    (hu' : ∀ u ∈ us', u.word = w) (h : os ++ us = os' ++ us') : os = os' ∧ us = us' := by
  have hfilter : ∀ os us : List Outline, (∀ o ∈ os, o.word = v) → (∀ u ∈ us, u.word = w) →
      (os ++ us).filter (fun o => o.word = v) = os := by
    intro os us ho hu
    rw [List.filter_append, List.filter_eq_self.mpr fun o h => by simp [ho o h],
      List.filter_eq_nil_iff.mpr fun u h => by simp [hu u h, hne.symm], List.append_nil]
  have hfront : os = os' := by
    rw [← hfilter os us ho hu, h, hfilter os' us' ho' hu']
  subst hfront
  exact ⟨rfl, List.append_cancel_left h⟩

end Outline

namespace Tree

/-- The word that the heading of a tree starts with. -/
def word : Tree → String
  | alien _ => ""
  | program _ _ => "Source"
  | field _ _ _ => "Field"
  | method _ _ _ => "Method"
  | effect _ => "ExpressionStatement"
  | declaration _ _ => "Declaration"
  | assignment _ _ => "Assignment"
  | branch _ _ _ => "If"
  | forLoop _ _ _ _ => "For"
  | whileLoop _ _ => "While"
  | exit _ => "Return"
  | literal _ => "Literal"
  | group _ => "Group"
  | access _ _ => "Access"
  | call _ _ _ => "Function"
  | binary _ _ _ => "Binary"

/-! ### Well-spelled trees -/

mutual

/-- Trees that source text can have: names are spelled as such, decimals have a fraction, integers
are not too long, operators are those of the language, and parts are missing at optional places
only. -/
def WellSpelled : Tree → Prop
  | alien _ => False
  | program fields methods =>
    (AllWellSpelled fields ∧ ∀ t ∈ fields, t.word = "Field") ∧
      AllWellSpelled methods ∧ ∀ t ∈ methods, t.word = "Method"
  | field name _ value => IsIdentifier name ∧ (value = alien .absence ∨ WellSpelled value)
  | method name parameters body =>
    IsIdentifier name ∧ (∀ p ∈ parameters, IsIdentifier p) ∧ AllWellSpelled body
  | effect expression => WellSpelled expression
  | declaration name value => IsIdentifier name ∧ (value = alien .absence ∨ WellSpelled value)
  | assignment receiver value => WellSpelled receiver ∧ WellSpelled value
  | branch condition thenPart elsePart =>
    WellSpelled condition ∧ AllWellSpelled thenPart ∧ AllWellSpelled elsePart
  | forLoop initialization condition increment body =>
    (initialization = alien .absence ∨ WellSpelled initialization) ∧ WellSpelled condition ∧
      (increment = alien .absence ∨ WellSpelled increment) ∧ AllWellSpelled body
  | whileLoop condition body => WellSpelled condition ∧ AllWellSpelled body
  | exit value => value = alien .absence ∨ WellSpelled value
  | literal value => value.HasFraction ∧ value.isOverlong = false
  | group content => WellSpelled content
  | access receiver name => (receiver = alien .absence ∨ WellSpelled receiver) ∧ IsIdentifier name
  | call receiver name arguments =>
    (receiver = alien .absence ∨ WellSpelled receiver) ∧ IsIdentifier name ∧
      AllWellSpelled arguments
  | binary operator left right =>
    (∃ o : Operator, operator = o.symbol) ∧ WellSpelled left ∧ WellSpelled right

def AllWellSpelled : List Tree → Prop
  | [] => True
  | t :: ts => WellSpelled t ∧ AllWellSpelled ts

end

lemma AllWellSpelled.wellSpelled {ts : List Tree} (h : AllWellSpelled ts) {t : Tree}
    (ht : t ∈ ts) : t.WellSpelled := by
  induction ts with
  | nil => cases ht
  | cons u us ih =>
    cases ht with
    | head => exact h.1
    | tail _ ht => exact ih h.2 ht

/-- A well-spelled tree, or none. -/
def Optional (t : Tree) : Prop := t = alien .absence ∨ t.WellSpelled

lemma outlines_eq (ts : List Tree) : outlines ts = ts.map outline := by
  induction ts with
  | nil => rfl
  | cons t ts ih => rw [outlines, ih, List.map_cons]

/-- A constant that is not too long has a heading. -/
lemma outline_literal {v : Literal} (h : v.isOverlong = false) :
    (literal v).outline = .entry ("Literal(" ++ v.text ++ ")") [] := by
  rw [outline, h, if_neg Bool.false_ne_true]

/-- What stands behind the first word of a heading starts with no letter. -/
lemma exists_heading {t : Tree} (h : t.WellSpelled) :
    ∃ rest, t.outline.heading = t.word ++ rest ∧
      ∀ c ∈ rest.toList.head?, c.isAlpha = false := by
  have hword : ∀ word : String, ∃ rest, word = word ++ rest ∧
      ∀ c ∈ rest.toList.head?, c.isAlpha = false :=
    fun word => ⟨"", String.append_empty.symm, nofun⟩
  cases t with
  | field name constant value =>
    refine ⟨(if constant then " CONST" else "") ++ " " ++ name, ?_, ?_⟩
    · simp only [outline, Outline.heading, word, String.append_assoc]
    · cases constant <;> simp
  | method name parameters body =>
    refine ⟨" " ++ (name ++ ("(" ++ (", ".intercalate parameters ++ ")"))), ?_, by simp⟩
    simp only [outline, Outline.heading, String.append_assoc]
    exact @String.append_assoc "Method" " " _
  | declaration name value =>
    exact ⟨" " ++ name, @String.append_assoc "Declaration" " " _, by simp⟩
  | literal value =>
    refine ⟨"(" ++ (value.text ++ ")"), ?_, by simp⟩
    rw [outline_literal h.2, Outline.heading, String.append_assoc]
    exact @String.append_assoc "Literal" "(" _
  | access receiver name =>
    exact ⟨" " ++ name, @String.append_assoc "Access" " " _, by simp⟩
  | call receiver name arguments =>
    refine ⟨" " ++ (name ++ ("/" ++ toString arguments.length)), ?_, by simp⟩
    simp only [outline, Outline.heading, String.append_assoc]
    exact @String.append_assoc "Function" " " _
  | binary operator left right =>
    exact ⟨" " ++ operator, @String.append_assoc "Binary" " " _, by simp⟩
  | _ => exact hword _

lemma isAlpha_word (t : Tree) : ∀ c ∈ t.word.toList, c.isAlpha = true := by
  cases t <;> simp [word]

lemma word_outline {t : Tree} (h : t.WellSpelled) : t.outline.word = t.word.toList := by
  obtain ⟨rest, hheading, hrest⟩ := exists_heading h
  rw [Outline.word, hheading, String.toList_append,
    List.takeWhile_append_of_pos t.isAlpha_word, (Scan.takeWhile_of_head hrest).1, List.append_nil]

/-- The newline is in no heading of a well-spelled tree. -/
lemma newline_notMem_heading {t : Tree} (h : t.WellSpelled) :
    '\n' ∉ t.outline.heading.toList := by
  have hname : ∀ {n : String}, IsIdentifier n → '\n' ∉ n.toList := fun hn => hn.notMem rfl
  cases t with
  | alien a => exact h.elim
  | field name constant value =>
    have hn := hname h.1
    cases constant <;> simpa using hn
  | method name parameters body =>
    have hn := hname h.1
    have hps := notMem_names h.2.1 (c := '\n') rfl (by decide) (by decide)
    simp [hn, hps, -String.toList_intercalate]
  | declaration name value =>
    have hn := hname h.1
    simpa using hn
  | access receiver name =>
    have hn := hname h.2
    simpa using hn
  | literal value =>
    have hv := Literal.newline_notMem_text h.1
    rw [outline_literal h.2]
    simpa using hv
  | call receiver name arguments =>
    have hn := hname h.2.1
    have hcount := notMem_toDigits (c := '\n') rfl arguments.length
    simp [hn, hcount]
  | binary operator left right =>
    obtain ⟨o, rfl⟩ := h.1
    cases o <;> simp [Operator.symbol]
  | _ => simp

lemma isHeading_outline {t : Tree} (h : t.WellSpelled) : IsHeading t.outline.heading where
  newline_notMem := newline_notMem_heading h
  head_ne_space := by
    have hword := word_outline h
    intro hspace
    obtain ⟨cs, hcs⟩ := List.head?_eq_some_iff.mp hspace
    rw [Outline.word, hcs, List.takeWhile_cons_of_neg (by decide)] at hword
    cases t with
    | alien a => exact h
    | _ => simp [word] at hword

variable {s t : Tree}

lemma outline_ne_absence (h : t ≠ alien .absence) :
    t.outline ≠ .obstacle (.alien .absence) := by
  cases t with
  | alien a =>
    intro ha
    cases ha
    exact h rfl
  | literal v => cases hv : v.isOverlong <;> simp [hv]
  | _ => exact nofun

lemma marked_of_ne (h : t ≠ alien .absence) : t.outline.marked = t.outline := by
  unfold Outline.marked
  split
  · next ho => exact absurd ho (outline_ne_absence h)
  · rfl

lemma ifPresent_of_ne (h : t ≠ alien .absence) : t.outline.ifPresent = [t.outline] := by
  unfold Outline.ifPresent
  split
  · next ho => exact absurd ho (outline_ne_absence h)
  · rfl

lemma WellSpelled.ne_absence (h : t.WellSpelled) : t ≠ alien .absence := by
  rintro rfl
  exact h

lemma marked_outline (h : t.WellSpelled) : t.outline.marked = t.outline :=
  marked_of_ne h.ne_absence

lemma ifPresent_outline (h : t.WellSpelled) : t.outline.ifPresent = [t.outline] :=
  ifPresent_of_ne h.ne_absence

lemma word_ne_empty (h : t.WellSpelled) : t.word ≠ "" := by
  cases t with
  | alien a => exact h.elim
  | _ => simp [word]

lemma word_of_outline (hs : s.WellSpelled) (ht : t.WellSpelled) (h : s.outline = t.outline) :
    s.word = t.word := by
  rw [← String.toList_inj, ← word_outline hs, h, word_outline ht]

/-- The mark of an absent part is no outline of a tree. -/
lemma mark_ne_outline (h : t.WellSpelled) : Outline.entry "-" [] ≠ t.outline := by
  intro heq
  have hword := word_outline h
  rw [← heq] at hword
  exact word_ne_empty h (String.toList_inj.mp hword.symm)

lemma Optional.marked_injective (hs : s.Optional) (ht : t.Optional)
    (ih : s.WellSpelled → t.WellSpelled → s.outline = t.outline → s = t)
    (h : s.outline.marked = t.outline.marked) : s = t := by
  obtain rfl | hs := hs
  · obtain rfl | ht := ht
    · rfl
    · rw [marked_outline ht] at h
      exact absurd h (mark_ne_outline ht)
  · rw [marked_outline hs] at h
    obtain rfl | ht := ht
    · exact absurd h.symm (mark_ne_outline hs)
    · rw [marked_outline ht] at h
      exact ih hs ht h

lemma Optional.ifPresent_injective (hs : s.Optional) (ht : t.Optional)
    (ih : s.WellSpelled → t.WellSpelled → s.outline = t.outline → s = t)
    (h : s.outline.ifPresent = t.outline.ifPresent) : s = t := by
  obtain rfl | hs := hs
  · obtain rfl | ht := ht
    · rfl
    · rw [ifPresent_outline ht] at h
      cases h
  · rw [ifPresent_outline hs] at h
    obtain rfl | ht := ht
    · cases h
    · rw [ifPresent_outline ht] at h
      exact ih hs ht (List.singleton_injective h)

lemma Optional.plain_marked (ht : t.Optional) (h : t.WellSpelled → t.outline.Plain) :
    t.outline.marked.Plain := by
  obtain rfl | ht := ht
  · exact ⟨⟨by decide, by decide⟩, trivial⟩
  · rw [marked_outline ht]
    exact h ht

lemma Optional.plain_ifPresent (ht : t.Optional) (h : t.WellSpelled → t.outline.Plain) :
    Outline.AllPlain t.outline.ifPresent := by
  obtain rfl | ht := ht
  · trivial
  · rw [ifPresent_outline ht]
    exact ⟨h ht, trivial⟩

mutual

theorem plain_outline : (t : Tree) → t.WellSpelled → t.outline.Plain
  | alien _, h => h.elim
  | program fields methods, h =>
    ⟨isHeading_outline h, Outline.allPlain_append (plain_outlines fields h.1.1)
      (plain_outlines methods h.2.1)⟩
  | field _ _ value, h =>
    ⟨isHeading_outline h, Optional.plain_marked h.2 (plain_outline value), trivial⟩
  | method _ _ body, h => ⟨isHeading_outline h, plain_outlines body h.2.2⟩
  | effect expression, h => ⟨isHeading_outline h, plain_outline expression h, trivial⟩
  | declaration _ value, h =>
    ⟨isHeading_outline h, Optional.plain_marked h.2 (plain_outline value), trivial⟩
  | assignment receiver value, h =>
    ⟨isHeading_outline h, plain_outline receiver h.1, plain_outline value h.2, trivial⟩
  | branch condition thenPart elsePart, h =>
    ⟨isHeading_outline h, plain_outline condition h.1,
      ⟨⟨by decide, by decide⟩, plain_outlines thenPart h.2.1⟩,
      Outline.plain_headed ⟨by decide, by decide⟩ (plain_outlines elsePart h.2.2)⟩
  | forLoop initialization condition increment body, h =>
    ⟨isHeading_outline h, Optional.plain_marked h.1 (plain_outline initialization),
      plain_outline condition h.2.1, Optional.plain_marked h.2.2.1 (plain_outline increment),
      plain_outlines body h.2.2.2⟩
  | whileLoop condition body, h =>
    ⟨isHeading_outline h, plain_outline condition h.1, plain_outlines body h.2⟩
  | exit value, h => ⟨isHeading_outline h, Optional.plain_marked h (plain_outline value), trivial⟩
  | literal value, h => by
    have hheading := isHeading_outline h
    rw [outline_literal h.2] at hheading ⊢
    exact ⟨hheading, trivial⟩
  | group content, h => ⟨isHeading_outline h, plain_outline content h, trivial⟩
  | access receiver _, h =>
    ⟨isHeading_outline h, Optional.plain_ifPresent h.1 (plain_outline receiver)⟩
  | call receiver _ arguments, h =>
    ⟨isHeading_outline h, Outline.allPlain_append
      (Optional.plain_ifPresent h.1 (plain_outline receiver)) (plain_outlines arguments h.2.2)⟩
  | binary _ left right, h =>
    ⟨isHeading_outline h, plain_outline left h.2.1, plain_outline right h.2.2, trivial⟩

theorem plain_outlines : (ts : List Tree) → AllWellSpelled ts → Outline.AllPlain (outlines ts)
  | [], _ => trivial
  | t :: ts, h => ⟨plain_outline t h.1, plain_outlines ts h.2⟩

end

/-! ### Trees told from outlines -/

lemma forall_word_outlines {ts : List Tree} {word : String}
    (hts : AllWellSpelled ts ∧ ∀ t ∈ ts, t.word = word) :
    ∀ o ∈ outlines ts, o.word = word.toList := by
  rw [outlines_eq, List.forall_mem_map]
  intro t ht
  rw [word_outline (hts.1.wellSpelled ht), hts.2 t ht]

mutual

/-- Well-spelled trees with the same outline are the same. -/
theorem outline_injective : (s t : Tree) → s.WellSpelled → t.WellSpelled →
    s.outline = t.outline → s = t
  | alien _, _, hs, _, _ => hs.elim
  | program fields methods, t, hs, ht, h => by
    have hword := word_of_outline hs ht h
    cases t with
    | program fields' methods' =>
      obtain ⟨-, hbelow⟩ := Outline.entry.inj h
      obtain ⟨hfields, hmethods⟩ := Outline.append_injective_of_word (by decide)
        (forall_word_outlines hs.1) (forall_word_outlines ht.1)
        (forall_word_outlines hs.2) (forall_word_outlines ht.2) hbelow
      rw [outlines_injective fields fields' hs.1.1 ht.1.1 hfields,
        outlines_injective methods methods' hs.2.1 ht.2.1 hmethods]
    | _ => simp [word] at hword
  | field name constant value, t, hs, ht, h => by
    have hword := word_of_outline hs ht h
    cases t with
    | field name' constant' value' =>
      obtain ⟨hheading, hbelow⟩ := Outline.entry.inj h
      obtain ⟨rfl, rfl⟩ := fieldHeading_injective hs.1 ht.1 hheading
      rw [Optional.marked_injective hs.2 ht.2 (outline_injective value value')
        (List.singleton_injective hbelow)]
    | _ => simp [word] at hword
  | method name parameters body, t, hs, ht, h => by
    have hword := word_of_outline hs ht h
    cases t with
    | method name' parameters' body' =>
      obtain ⟨hheading, hbelow⟩ := Outline.entry.inj h
      obtain ⟨rfl, rfl⟩ := methodHeading_injective hs.1 ht.1 hs.2.1 ht.2.1 hheading
      rw [outlines_injective body body' hs.2.2 ht.2.2 hbelow]
    | _ => simp [word] at hword
  | effect expression, t, hs, ht, h => by
    have hword := word_of_outline hs ht h
    cases t with
    | effect expression' =>
      obtain ⟨-, hbelow⟩ := Outline.entry.inj h
      rw [outline_injective expression expression' hs ht (List.singleton_injective hbelow)]
    | _ => simp [word] at hword
  | declaration name value, t, hs, ht, h => by
    have hword := word_of_outline hs ht h
    cases t with
    | declaration name' value' =>
      obtain ⟨hheading, hbelow⟩ := Outline.entry.inj h
      rw [(String.append_right_inj "Declaration ").mp hheading, Optional.marked_injective hs.2 ht.2
        (outline_injective value value') (List.singleton_injective hbelow)]
    | _ => simp [word] at hword
  | assignment receiver value, t, hs, ht, h => by
    have hword := word_of_outline hs ht h
    cases t with
    | assignment receiver' value' =>
      obtain ⟨-, hbelow⟩ := Outline.entry.inj h
      obtain ⟨hreceiver, hbelow⟩ := List.cons_eq_cons.mp hbelow
      rw [outline_injective receiver receiver' hs.1 ht.1 hreceiver,
        outline_injective value value' hs.2 ht.2 (List.singleton_injective hbelow)]
    | _ => simp [word] at hword
  | branch condition thenPart elsePart, t, hs, ht, h => by
    have hword := word_of_outline hs ht h
    cases t with
    | branch condition' thenPart' elsePart' =>
      obtain ⟨-, hbelow⟩ := Outline.entry.inj h
      obtain ⟨hcondition, hbelow⟩ := List.cons_eq_cons.mp hbelow
      obtain ⟨hthen, helse⟩ := List.cons_eq_cons.mp hbelow
      rw [outline_injective condition condition' hs.1 ht.1 hcondition,
        outlines_injective thenPart thenPart' hs.2.1 ht.2.1 (Outline.entry.inj hthen).2,
        outlines_injective elsePart elsePart' hs.2.2 ht.2.2 (Outline.headed_injective helse)]
    | _ => simp [word] at hword
  | forLoop initialization condition increment body, t, hs, ht, h => by
    have hword := word_of_outline hs ht h
    cases t with
    | forLoop initialization' condition' increment' body' =>
      obtain ⟨-, hbelow⟩ := Outline.entry.inj h
      obtain ⟨hinitialization, hbelow⟩ := List.cons_eq_cons.mp hbelow
      obtain ⟨hcondition, hbelow⟩ := List.cons_eq_cons.mp hbelow
      obtain ⟨hincrement, hbody⟩ := List.cons_eq_cons.mp hbelow
      rw [Optional.marked_injective hs.1 ht.1 (outline_injective initialization initialization')
          hinitialization,
        outline_injective condition condition' hs.2.1 ht.2.1 hcondition,
        Optional.marked_injective hs.2.2.1 ht.2.2.1 (outline_injective increment increment')
          hincrement,
        outlines_injective body body' hs.2.2.2 ht.2.2.2 hbody]
    | _ => simp [word] at hword
  | whileLoop condition body, t, hs, ht, h => by
    have hword := word_of_outline hs ht h
    cases t with
    | whileLoop condition' body' =>
      obtain ⟨-, hbelow⟩ := Outline.entry.inj h
      obtain ⟨hcondition, hbody⟩ := List.cons_eq_cons.mp hbelow
      rw [outline_injective condition condition' hs.1 ht.1 hcondition,
        outlines_injective body body' hs.2 ht.2 hbody]
    | _ => simp [word] at hword
  | exit value, t, hs, ht, h => by
    have hword := word_of_outline hs ht h
    cases t with
    | exit value' =>
      obtain ⟨-, hbelow⟩ := Outline.entry.inj h
      rw [Optional.marked_injective hs ht (outline_injective value value')
        (List.singleton_injective hbelow)]
    | _ => simp [word] at hword
  | literal value, t, hs, ht, h => by
    have hword := word_of_outline hs ht h
    cases t with
    | literal value' =>
      rw [outline_literal hs.2, outline_literal ht.2] at h
      obtain ⟨hheading, -⟩ := Outline.entry.inj h
      have htext := (String.append_right_inj _).mp ((String.append_left_inj _).mp hheading)
      rw [Literal.text_injective hs.1 ht.1 htext]
    | _ => simp [word] at hword
  | group content, t, hs, ht, h => by
    have hword := word_of_outline hs ht h
    cases t with
    | group content' =>
      obtain ⟨-, hbelow⟩ := Outline.entry.inj h
      rw [outline_injective content content' hs ht (List.singleton_injective hbelow)]
    | _ => simp [word] at hword
  | access receiver name, t, hs, ht, h => by
    have hword := word_of_outline hs ht h
    cases t with
    | access receiver' name' =>
      obtain ⟨hheading, hbelow⟩ := Outline.entry.inj h
      rw [(String.append_right_inj "Access ").mp hheading, Optional.ifPresent_injective hs.1 ht.1
        (outline_injective receiver receiver') hbelow]
    | _ => simp [word] at hword
  | call receiver name arguments, t, hs, ht, h => by
    have hword := word_of_outline hs ht h
    cases t with
    | call receiver' name' arguments' =>
      obtain ⟨hheading, hbelow⟩ := Outline.entry.inj h
      obtain ⟨rfl, hcount⟩ := callHeading_injective hs.2.1 ht.2.1 hheading
      have hlength : (outlines arguments).length = (outlines arguments').length := by
        rw [outlines_eq, outlines_eq, List.length_map, List.length_map, hcount]
      obtain ⟨hreceiver, harguments⟩ := List.append_inj' hbelow hlength
      rw [Optional.ifPresent_injective hs.1 ht.1 (outline_injective receiver receiver') hreceiver,
        outlines_injective arguments arguments' hs.2.2 ht.2.2 harguments]
    | _ => simp [word] at hword
  | binary operator left right, t, hs, ht, h => by
    have hword := word_of_outline hs ht h
    cases t with
    | binary operator' left' right' =>
      obtain ⟨hheading, hbelow⟩ := Outline.entry.inj h
      obtain ⟨hleft, hbelow⟩ := List.cons_eq_cons.mp hbelow
      rw [(String.append_right_inj "Binary ").mp hheading,
        outline_injective left left' hs.2.1 ht.2.1 hleft,
        outline_injective right right' hs.2.2 ht.2.2 (List.singleton_injective hbelow)]
    | _ => simp [word] at hword

theorem outlines_injective : (ss ts : List Tree) → AllWellSpelled ss → AllWellSpelled ts →
    outlines ss = outlines ts → ss = ts
  | [], [], _, _, _ => rfl
  | s :: ss, t :: ts, hs, ht, h => by
    obtain ⟨hhead, htail⟩ := List.cons_eq_cons.mp h
    rw [outline_injective s t hs.1 ht.1 hhead, outlines_injective ss ts hs.2 ht.2 htail]

end

end Tree

end FrontEnd
