import FrontEnd.Proofs.Dump.Tree

/-!
# Gaps

A gap of a tree is a place that its dump stops at: an alien where a syntax tree has to stand, or an
integer that is too long. An outline is a list of rows and gaps, and what is written of it are the
rows in front of the first gap.
-/

namespace FrontEnd

/-- A place that a dump stops at, with its depth there. -/
structure Gap where
  depth : Nat
  obstacle : Obstacle
deriving DecidableEq

namespace Tree

/-- Chooses by whether nothing stands at an optional place. -/
def ifAbsent {α : Type} (t : Tree) (absent present : α) : α :=
  match t with
  | alien .absence => absent
  | _ => present

mutual

/-- The gaps of a tree in the order of its dump. Absence is none at an optional place. -/
@[simp] def gaps (depth : Nat) : Tree → List Gap
  | alien a => [⟨depth, .alien a⟩]
  | program fields methods => gapsAll (depth + 1) fields ++ gapsAll (depth + 1) methods
  | field _ _ value => value.ifAbsent [] (gaps (depth + 1) value)
  | method _ _ body => gapsAll (depth + 1) body
  | effect expression => gaps (depth + 1) expression
  | declaration _ value => value.ifAbsent [] (gaps (depth + 1) value)
  | assignment receiver value => gaps (depth + 1) receiver ++ gaps (depth + 1) value
  | branch condition thenPart elsePart =>
    gaps (depth + 1) condition ++ gapsAll (depth + 2) thenPart ++ gapsAll (depth + 2) elsePart
  | forLoop initialization condition increment body =>
    initialization.ifAbsent [] (gaps (depth + 1) initialization) ++ gaps (depth + 1) condition ++
      increment.ifAbsent [] (gaps (depth + 1) increment) ++ gapsAll (depth + 1) body
  | whileLoop condition body => gaps (depth + 1) condition ++ gapsAll (depth + 1) body
  | exit value => value.ifAbsent [] (gaps (depth + 1) value)
  | literal value => if value.isOverlong then [⟨depth, .overlong⟩] else []
  | group content => gaps (depth + 1) content
  | access receiver _ => receiver.ifAbsent [] (gaps (depth + 1) receiver)
  | call receiver _ arguments =>
    receiver.ifAbsent [] (gaps (depth + 1) receiver) ++ gapsAll (depth + 1) arguments
  | binary _ left right => gaps (depth + 1) left ++ gaps (depth + 1) right

@[simp] def gapsAll (depth : Nat) : List Tree → List Gap
  | [] => []
  | t :: ts => gaps depth t ++ gapsAll depth ts

end

end Tree

namespace Outline

/-- A row of an outline, or a gap in it. -/
inductive Item where
  | row (r : Row)
  | gap (g : Gap)

/-- The gaps among some items. -/
@[simp] def gapsOf : List Item → List Gap
  | [] => []
  | .row _ :: is => gapsOf is
  | .gap g :: is => g :: gapsOf is

@[simp] lemma gapsOf_append (is js : List Item) : gapsOf (is ++ js) = gapsOf is ++ gapsOf js := by
  induction is with
  | nil => rfl
  | cons i is ih => cases i <;> simp [ih]

/-- Items in front of the first gap and behind it. -/
lemma exists_first_gap {is : List Item} {g : Gap} {later : List Gap}
    (h : gapsOf is = g :: later) :
    ∃ front more, is = front ++ .gap g :: more ∧ gapsOf front = [] ∧ gapsOf more = later := by
  induction is with
  | nil => cases h
  | cons i is ih =>
    cases i with
    | row r =>
      obtain ⟨front, more, rfl, hfront, hmore⟩ := ih h
      exact ⟨.row r :: front, more, rfl, hfront, hmore⟩
    | gap g' =>
      obtain ⟨rfl, hmore⟩ := List.cons_eq_cons.mp h
      exact ⟨[], is, rfl, rfl, hmore⟩

mutual

/-- The rows and gaps of an outline. -/
@[simp] def items (depth : Nat) : Outline → List Item
  | entry heading below => .row ⟨depth, heading⟩ :: itemsAll (depth + 1) below
  | obstacle o => [.gap ⟨depth, o⟩]

@[simp] def itemsAll (depth : Nat) : List Outline → List Item
  | [] => []
  | o :: os => items depth o ++ itemsAll depth os

end

@[simp] lemma itemsAll_append (depth : Nat) (os us : List Outline) :
    itemsAll depth (os ++ us) = itemsAll depth os ++ itemsAll depth us := by
  induction os with
  | nil => rfl
  | cons o os ih => rw [List.cons_append, itemsAll, itemsAll, ih, List.append_assoc]

mutual

/-- There are gaps at every depth or at none. -/
theorem gapsOf_items {d e : Nat} : (o : Outline) → gapsOf (o.items d) = [] →
    gapsOf (o.items e) = []
  | entry _ below, h => gapsOf_itemsAll below h

theorem gapsOf_itemsAll {d e : Nat} : (os : List Outline) → gapsOf (itemsAll d os) = [] →
    gapsOf (itemsAll e os) = []
  | [], _ => rfl
  | o :: os, h => by
    rw [itemsAll, gapsOf_append, List.append_eq_nil_iff] at h ⊢
    exact ⟨gapsOf_items o h.1, gapsOf_itemsAll os h.2⟩

end

end Outline

namespace Listing

open Outline (Item gapsOf)

/-- What is written of some items. -/
def ofItems : List Item → Listing
  | [] => ⟨[], none⟩
  | .row r :: is => append ⟨[r], none⟩ (ofItems is)
  | .gap g :: _ => ⟨[], some g.obstacle⟩

lemma append_assoc (a b c : Listing) : append (append a b) c = append a (append b c) := by
  obtain ⟨rows, stop⟩ := a
  cases stop with
  | none =>
    obtain ⟨rows', stop'⟩ := b
    cases stop' <;> simp [append]
  | some o => rfl

lemma ofItems_append (is js : List Item) :
    ofItems (is ++ js) = append (ofItems is) (ofItems js) := by
  induction is with
  | nil => rfl
  | cons i is ih =>
    cases i with
    | row r => rw [List.cons_append, ofItems, ofItems, ih, append_assoc]
    | gap g => rfl

lemma text_append {a : Listing} (h : a.stop = none) (b : Listing) :
    (append a b).text = a.text ++ b.text := by
  rw [append, h]
  simp [text]

/-- Items without gaps are written whole. -/
lemma stop_ofItems {is : List Item} (h : gapsOf is = []) : (ofItems is).stop = none := by
  induction is with
  | nil => rfl
  | cons i is ih =>
    cases i with
    | row r => exact ih h
    | gap g => cases h

/-- Writing stops at the first gap. -/
lemma ofItems_front {front : List Item} (h : gapsOf front = []) (g : Gap) (more : List Item) :
    ofItems (front ++ .gap g :: more) = ⟨(ofItems front).rows, some g.obstacle⟩ := by
  rw [ofItems_append, append, stop_ofItems h]
  simp [ofItems]

end Listing

namespace Outline

mutual

theorem listing_eq : (o : Outline) → (depth : Nat) → o.listing depth = .ofItems (o.items depth)
  | entry heading below, depth => by
    rw [listing, items, Listing.ofItems, listingAll_eq below]
  | obstacle o, _ => rfl

theorem listingAll_eq : (os : List Outline) → (depth : Nat) →
    listingAll depth os = .ofItems (itemsAll depth os)
  | [], _ => rfl
  | o :: os, depth => by
    rw [listingAll, itemsAll, Listing.ofItems_append, listing_eq o, listingAll_eq os]

end

end Outline

namespace Tree

open Outline (gapsOf)

section

variable {α : Type} {absent present : α} {t : Tree}

lemma ifAbsent_of_ne (h : t ≠ alien .absence) : t.ifAbsent absent present = present := by
  unfold ifAbsent
  split
  · exact absurd rfl h
  · rfl

variable {depth : Nat} (h : gapsOf (t.outline.items depth) = t.gaps depth)

include h

lemma gaps_marked : gapsOf (t.outline.marked.items depth) = t.ifAbsent [] (t.gaps depth) := by
  by_cases ht : t = alien .absence
  · subst ht
    rfl
  · rw [marked_of_ne ht, ifAbsent_of_ne ht, h]

lemma gaps_ifPresent : gapsOf (Outline.itemsAll depth t.outline.ifPresent) =
    t.ifAbsent [] (t.gaps depth) := by
  by_cases ht : t = alien .absence
  · subst ht
    rfl
  · simp [ifPresent_of_ne ht, ifAbsent_of_ne ht, h]

end

@[simp] lemma gaps_headed (heading : String) (os : List Outline) (depth : Nat) :
    gapsOf (Outline.itemsAll depth (Outline.headed heading os)) =
      gapsOf (Outline.itemsAll (depth + 1) os) := by
  cases os with
  | nil => rfl
  | cons o os => simp [Outline.headed]

mutual

theorem gaps_eq : (t : Tree) → (depth : Nat) → gapsOf (t.outline.items depth) = t.gaps depth
  | alien _, _ => rfl
  | program fields methods, depth => by simp [gapsAll_eq fields, gapsAll_eq methods]
  | field _ _ value, depth => by simp [gaps_marked (gaps_eq value (depth + 1))]
  | method _ _ body, depth => by simp [gapsAll_eq body]
  | effect expression, depth => by simp [gaps_eq expression]
  | declaration _ value, depth => by simp [gaps_marked (gaps_eq value (depth + 1))]
  | assignment receiver value, depth => by simp [gaps_eq receiver, gaps_eq value]
  | branch condition thenPart elsePart, depth => by
    simp [gaps_eq condition, gapsAll_eq thenPart, gapsAll_eq elsePart]
  | forLoop initialization condition increment body, depth => by
    simp [gaps_marked (gaps_eq initialization (depth + 1)), gaps_eq condition,
      gaps_marked (gaps_eq increment (depth + 1)), gapsAll_eq body]
  | whileLoop condition body, depth => by simp [gaps_eq condition, gapsAll_eq body]
  | exit value, depth => by simp [gaps_marked (gaps_eq value (depth + 1))]
  | literal value, _ => by cases hv : value.isOverlong <;> simp [hv]
  | group content, depth => by simp [gaps_eq content]
  | access receiver _, depth => by simp [gaps_ifPresent (gaps_eq receiver (depth + 1))]
  | call receiver _ arguments, depth => by
    simp [gaps_ifPresent (gaps_eq receiver (depth + 1)), gapsAll_eq arguments]
  | binary _ left right, depth => by simp [gaps_eq left, gaps_eq right]

theorem gapsAll_eq : (ts : List Tree) → (depth : Nat) →
    gapsOf (Outline.itemsAll depth (outlines ts)) = gapsAll depth ts
  | [], _ => rfl
  | t :: ts, depth => by simp [gaps_eq t, gapsAll_eq ts]

end

lemma dump_eq (t : Tree) : t.dump = .ofItems (t.outline.items 0) := t.outline.listing_eq 0

end Tree

end FrontEnd
