import FrontEnd.Proofs.Dump.Literal
import FrontEnd.Proofs.Dump.Outline

/-!
# Headings with names

Names are spelled with few characters, so they are told from what stands around them in a heading.
-/

namespace FrontEnd

/-- A text that the lexer takes for a name or a keyword. -/
def IsIdentifier (s : String) : Prop := TokenKind.identifier.Spells s.toList

variable {m n : String}

lemma IsIdentifier.notMem (h : IsIdentifier n) {c : Char} (hc : isIdentifierChar c = false) :
    c ∉ n.toList := by
  obtain ⟨d, r, hn, hstart, hr⟩ := h
  have hd : isIdentifierChar d = true := by
    simp only [isIdentifierStart, Bool.and_eq_true] at hstart
    simp [isIdentifierChar, hstart.1]
  intro hmem
  rw [hn] at hmem
  obtain rfl | hmem := List.mem_cons.mp hmem
  · rw [hd] at hc
    cases hc
  · rw [hr c hmem] at hc
    cases hc

/-- A constant is told from a variable: names have no spaces. -/
lemma constantHeading_ne (hn : IsIdentifier n) : "Field CONST " ++ m ≠ "Field " ++ n := by
  intro h
  have hconst : "Field CONST " = "Field " ++ "CONST " := rfl
  rw [hconst, String.append_assoc, String.append_right_inj] at h
  refine hn.notMem (c := ' ') rfl ?_
  rw [← h, String.toList_append]
  exact List.mem_append_left _ (by decide)

lemma fieldHeading_injective {b c : Bool} (hm : IsIdentifier m) (hn : IsIdentifier n)
    (h : "Field" ++ (if b then " CONST" else "") ++ " " ++ m =
      "Field" ++ (if c then " CONST" else "") ++ " " ++ n) : m = n ∧ b = c := by
  cases b with
  | true =>
    cases c with
    | true => exact ⟨(String.append_right_inj _).mp h, rfl⟩
    | false => exact absurd h (constantHeading_ne hn)
  | false =>
    cases c with
    | true => exact absurd h.symm (constantHeading_ne hm)
    | false => exact ⟨(String.append_right_inj _).mp h, rfl⟩

/-- Names with a comma and a space between each two. -/
lemma toList_names {names : List String} (hne : names ≠ []) :
    (", ".intercalate names).toList ++ [',', ' '] =
      names.flatMap fun n => n.toList ++ ',' :: [' '] := by
  induction names with
  | nil => exact absurd rfl hne
  | cons n names ih =>
    cases names with
    | nil => simp
    | cons n' names =>
      rw [List.flatMap_cons, ← ih (List.cons_ne_nil _ _), String.intercalate_cons_cons]
      simp [String.toList_append]

lemma notMem_names {names : List String} (h : ∀ n ∈ names, IsIdentifier n) {c : Char}
    (hc : isIdentifierChar c = false) (hcomma : c ≠ ',') (hspace : c ≠ ' ') :
    c ∉ (", ".intercalate names).toList := by
  by_cases hne : names = []
  · subst hne
    simp
  · intro hmem
    have hmem := List.mem_append_left [',', ' '] hmem
    rw [toList_names hne, List.mem_flatMap] at hmem
    obtain ⟨n, hn, hmem⟩ := hmem
    obtain hmem | hmem := List.mem_append.mp hmem
    · exact (h n hn).notMem hc hmem
    · simp [hcomma, hspace] at hmem

lemma eq_nil_of_names {names : List String} (h : ∀ n ∈ names, IsIdentifier n)
    (hempty : ", ".intercalate names = "") : names = [] := by
  cases names with
  | nil => rfl
  | cons n names =>
    have hlist := toList_names (List.cons_ne_nil n names)
    have hpos := List.length_pos_iff.mpr (h n (List.mem_cons_self ..)).ne_nil
    have hlength := congrArg List.length hlist
    simp only [hempty, String.toList_empty, List.flatMap_cons, List.length_append,
      List.length_cons, List.length_nil] at hlength
    omega

lemma names_injective {names others : List String} (hnames : ∀ n ∈ names, IsIdentifier n)
    (hothers : ∀ n ∈ others, IsIdentifier n)
    (h : ", ".intercalate names = ", ".intercalate others) : names = others := by
  have hcode : IsCode IsIdentifier (fun n => n.toList ++ ',' :: [' ']) _ :=
    isCode_of_stop [' '] (fun n hn => hn.notMem rfl) fun m n _ _ h => String.toList_inj.mp h
  by_cases hne : names = []
  · subst hne
    exact (eq_nil_of_names hothers h.symm).symm
  by_cases hne' : others = []
  · subst hne'
    exact eq_nil_of_names hnames h
  have hlist := toList_names hne
  rw [h, toList_names hne'] at hlist
  exact hcode.flatMap_injective hnames hothers hlist.symm

lemma methodHeading_injective {names others : List String} (hm : IsIdentifier m)
    (hn : IsIdentifier n) (hnames : ∀ n ∈ names, IsIdentifier n)
    (hothers : ∀ n ∈ others, IsIdentifier n)
    (h : "Method " ++ m ++ "(" ++ ", ".intercalate names ++ ")" =
      "Method " ++ n ++ "(" ++ ", ".intercalate others ++ ")") : m = n ∧ names = others := by
  simp only [String.append_assoc, String.append_right_inj] at h
  have hlist := congrArg String.toList h
  simp only [String.toList_append] at hlist
  obtain ⟨hname, hrest⟩ := append_cons_inj_of_first (hm.notMem rfl) (hn.notMem rfl) hlist
  have hnames' := String.toList_inj.mp (List.append_cancel_right hrest)
  exact ⟨String.toList_inj.mp hname, names_injective hnames hothers hnames'⟩

lemma callHeading_injective {i j : Nat} (hm : IsIdentifier m) (hn : IsIdentifier n)
    (h : "Function " ++ m ++ "/" ++ toString i = "Function " ++ n ++ "/" ++ toString j) :
    m = n ∧ i = j := by
  simp only [String.append_assoc, String.append_right_inj] at h
  have hlist := congrArg String.toList h
  simp only [String.toList_append, Nat.toString_eq_ofList_toDigits, String.toList_ofList] at hlist
  obtain ⟨hname, hcount⟩ := append_cons_inj_of_first (hm.notMem rfl) (hn.notMem rfl) hlist
  exact ⟨String.toList_inj.mp hname, toDigits_injective hcount⟩

end FrontEnd
