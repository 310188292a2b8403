import FrontEnd.Dump.Outline
import FrontEnd.Proofs.Code

/-!
# Written outlines are unambiguous

The text of an outline without obstacles splits into rows at its newlines, the spaces at the start
of a row tell its depth, and the depths tell which rows are below which. So the text belongs to one
outline only, as long as no heading has a newline or starts with a space.
-/

namespace FrontEnd

/-- A heading that is told from the space in front of it and the row behind it. -/
structure IsHeading (s : String) : Prop where
  newline_notMem : '\n' ∉ s.toList
  head_ne_space : s.toList.head? ≠ some ' '

namespace Row

/-- A row without its newline. -/
def line (r : Row) : List Char := List.replicate (2 * r.depth) ' ' ++ r.heading.toList

lemma toList_text (r : Row) : r.text.toList = r.line ++ ['\n'] := by
  simp [text, line]

lemma takeWhile_line {r : Row} (h : IsHeading r.heading) :
    r.line.takeWhile (· == ' ') = List.replicate (2 * r.depth) ' ' := by
  have hspaces : ∀ c ∈ List.replicate (2 * r.depth) ' ', (c == ' ') = true := by
    intro c hc
    rw [List.eq_of_mem_replicate hc]
    rfl
  have hheading : r.heading.toList.takeWhile (· == ' ') = [] := by
    have hhead := h.head_ne_space
    cases hs : r.heading.toList with
    | nil => rfl
    | cons c cs =>
      rw [hs] at hhead
      exact List.takeWhile_cons_of_neg (by simpa using hhead)
  rw [line, List.takeWhile_append_of_pos hspaces, hheading, List.append_nil]

lemma line_injective {r s : Row} (hr : IsHeading r.heading) (hs : IsHeading s.heading)
    (h : r.line = s.line) : r = s := by
  have hspaces := takeWhile_line hr
  rw [h, takeWhile_line hs, List.replicate_inj] at hspaces
  have hdepth : r.depth = s.depth := by omega
  rw [line, line, hdepth] at h
  have hheading := String.toList_inj.mp (List.append_cancel_left h)
  obtain ⟨i, a⟩ := r
  obtain ⟨j, b⟩ := s
  cases hdepth
  cases hheading
  rfl

lemma newline_notMem_line {r : Row} (h : IsHeading r.heading) : '\n' ∉ r.line := by
  have hheading := h.newline_notMem
  simp [line, hheading]

/-- Rows are told apart in a text of them by their newlines. -/
lemma isCode_text : IsCode (fun r : Row => IsHeading r.heading) (fun r => r.text.toList)
    fun cs => cs.idxOf '\n' + 1 := by
  have h := isCode_of_stop (P := fun r : Row => IsHeading r.heading) []
    (fun r hr => newline_notMem_line hr) (fun r s hr hs => line_injective hr hs)
  simpa only [← toList_text, List.length_nil, Nat.zero_add] using h

end Row

lemma Listing.toList_text (l : Listing) :
    l.text.toList = l.rows.flatMap fun r => r.text.toList := by
  simp [Listing.text, List.flatMap_map]

namespace Outline

mutual

/-- An outline of headings that can be told apart. -/
def Plain : Outline → Prop
  | entry heading below => IsHeading heading ∧ AllPlain below
  | obstacle _ => False

def AllPlain : List Outline → Prop
  | [] => True
  | o :: os => Plain o ∧ AllPlain os

end

mutual

/-- The rows of an outline but for its obstacles. -/
@[simp] def rows (depth : Nat) : Outline → List Row
  | entry heading below => ⟨depth, heading⟩ :: rowsAll (depth + 1) below
  | obstacle _ => []

@[simp] def rowsAll (depth : Nat) : List Outline → List Row
  | [] => []
  | o :: os => rows depth o ++ rowsAll depth os

end

@[simp] lemma rowsAll_append (depth : Nat) (os us : List Outline) :
    rowsAll depth (os ++ us) = rowsAll depth os ++ rowsAll depth us := by
  induction os with
  | nil => rfl
  | cons o os ih => rw [List.cons_append, rowsAll, rowsAll, ih, List.append_assoc]

@[simp] lemma rowsAll_headed (depth : Nat) (heading : String) (os : List Outline) :
    rowsAll depth (headed heading os) =
      if os.isEmpty then [] else ⟨depth, heading⟩ :: rowsAll (depth + 1) os := by
  cases os <;> simp [headed, rows, rowsAll]

mutual

theorem listing_plain : (o : Outline) → o.Plain → (depth : Nat) →
    o.listing depth = ⟨o.rows depth, none⟩
  | entry heading below, h, depth => by
    rw [listing, listingAll_plain below h.2]
    rfl

theorem listingAll_plain : (os : List Outline) → AllPlain os → (depth : Nat) →
    listingAll depth os = ⟨rowsAll depth os, none⟩
  | [], _, _ => rfl
  | o :: os, h, depth => by
    rw [listingAll, listing_plain o h.1, listingAll_plain os h.2]
    rfl

end

mutual

theorem isHeading_rows : (o : Outline) → o.Plain → (depth : Nat) →
    ∀ r ∈ o.rows depth, IsHeading r.heading
  | entry heading below, h, depth => by
    rw [rows, List.forall_mem_cons]
    exact ⟨h.1, isHeading_rowsAll below h.2 (depth + 1)⟩

theorem isHeading_rowsAll : (os : List Outline) → AllPlain os → (depth : Nat) →
    ∀ r ∈ rowsAll depth os, IsHeading r.heading
  | [], _, _ => nofun
  | o :: os, h, depth => by
    rw [rowsAll, List.forall_mem_append]
    exact ⟨isHeading_rows o h.1 depth, isHeading_rowsAll os h.2 depth⟩

end

lemma allPlain_append {os us : List Outline} (ho : AllPlain os)
    (hu : AllPlain us) : AllPlain (os ++ us) := by
  induction os with
  | nil => exact hu
  | cons o os ih => exact ⟨ho.1, ih ho.2⟩

lemma plain_headed {heading : String} {os : List Outline} (hheading : IsHeading heading)
    (h : AllPlain os) : AllPlain (headed heading os) := by
  cases os with
  | nil => trivial
  | cons o os => exact ⟨⟨hheading, h⟩, trivial⟩

lemma headed_injective {heading : String} {os us : List Outline}
    (h : headed heading os = headed heading us) : os = us := by
  cases os with
  | nil =>
    cases us with
    | nil => rfl
    | cons u us => cases h
  | cons o os =>
    cases us with
    | nil => cases h
    | cons u us =>
      cases h
      rfl

/-- Rows whose first one, if there is one, stands less deep. -/
def Leaves (depth : Nat) (rest : List Row) : Prop := ∀ r ∈ rest.head?, r.depth < depth

/-- What follows the rows below a heading is no row below it. -/
lemma leaves_rowsAll {depth : Nat} {os : List Outline} {rest : List Row} (h : AllPlain os)
    (hrest : Leaves depth rest) : Leaves (depth + 1) (rowsAll depth os ++ rest) := by
  cases os with
  | nil => exact fun r hr => Nat.lt_succ_of_lt (hrest r hr)
  | cons o os =>
    cases o with
    | entry heading below =>
      rintro r ⟨⟩
      exact Nat.lt_succ_self depth
    | obstacle o => exact h.1.elim

/-- The rows of outlines at a depth do not leave it. -/
lemma eq_nil_of_rowsAll {depth : Nat} {os : List Outline} {rest tail : List Row} (h : AllPlain os)
    (htail : Leaves depth tail) (heq : rowsAll depth os ++ rest = tail) : os = [] := by
  cases os with
  | nil => rfl
  | cons o os =>
    cases o with
    | entry heading below =>
      subst heq
      exact absurd (htail _ rfl) (Nat.lt_irrefl depth)
    | obstacle o => exact h.1.elim

mutual

/-- The rows of an outline, whatever rows behind them leave it, tell the outline and these rows. -/
theorem rows_injective {depth : Nat} {rest tail : List Row} : (o u : Outline) → o.Plain → u.Plain →
    Leaves (depth + 1) rest → Leaves (depth + 1) tail →
    o.rows depth ++ rest = u.rows depth ++ tail → o = u ∧ rest = tail
  | entry heading below, entry heading' below', ho, hu, hrest, htail, h => by
    obtain ⟨hrow, hbelow⟩ := List.cons_eq_cons.mp h
    obtain ⟨rfl, rfl⟩ := rowsAll_injective below below' ho.2 hu.2 hrest htail hbelow
    cases hrow
    exact ⟨rfl, rfl⟩

theorem rowsAll_injective {depth : Nat} {rest tail : List Row} : (os us : List Outline) →
    AllPlain os → AllPlain us → Leaves depth rest → Leaves depth tail →
    rowsAll depth os ++ rest = rowsAll depth us ++ tail → os = us ∧ rest = tail
  | [], us, _, hus, hrest, _, h => by
    obtain rfl := eq_nil_of_rowsAll hus hrest h.symm
    exact ⟨rfl, h⟩
  | os, [], hos, _, _, htail, h => by
    obtain rfl := eq_nil_of_rowsAll hos htail h
    exact ⟨rfl, h⟩
  | o :: os, u :: us, hos, hus, hrest, htail, h => by
    rw [rowsAll, rowsAll, List.append_assoc, List.append_assoc] at h
    obtain ⟨rfl, hmore⟩ := rows_injective o u hos.1 hus.1 (leaves_rowsAll hos.2 hrest)
      (leaves_rowsAll hus.2 htail) h
    obtain ⟨rfl, rfl⟩ := rowsAll_injective os us hos.2 hus.2 hrest htail hmore
    exact ⟨rfl, rfl⟩

end

/-- The text of an outline without obstacles is that of no other one. -/
theorem text_listing_injective {o u : Outline} (ho : o.Plain) (hu : u.Plain)
    (h : (o.listing 0).text = (u.listing 0).text) : o = u := by
  have htext := congrArg String.toList h
  rw [Listing.toList_text, Listing.toList_text, listing_plain o ho, listing_plain u hu] at htext
  have hrows : o.rows 0 = u.rows 0 :=
    Row.isCode_text.flatMap_injective (isHeading_rows o ho 0) (isHeading_rows u hu 0) htext
  have hnone : Leaves 1 [] := nofun
  exact (rows_injective o u ho hu hnone hnone (by rw [hrows])).1

end Outline

end FrontEnd
