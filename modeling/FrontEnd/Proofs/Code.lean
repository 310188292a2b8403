import Mathlib.Tactic.Common

/-!
# Codes

A text put together from code words can be taken apart in one way only, if the text in front of
which a word stands tells how long that word is.
-/

namespace FrontEnd

variable {α β : Type}

/-- Words for things with some property, whose lengths can be told from any text that starts with
them. -/
structure IsCode (P : β → Prop) (word : β → List α) (width : List α → Nat) : Prop where
  ne_nil : ∀ b, P b → word b ≠ []
  width_append : ∀ b, P b → ∀ rest, width (word b ++ rest) = (word b).length
  injective : ∀ b c, P b → P c → word b = word c → b = c

/-- A text is put together from the words of one list of things only. -/
theorem IsCode.flatMap_injective {P : β → Prop} {word : β → List α} {width : List α → Nat}
    (h : IsCode P word width) {bs cs : List β} (hbs : ∀ b ∈ bs, P b) (hcs : ∀ c ∈ cs, P c)
    (heq : bs.flatMap word = cs.flatMap word) : bs = cs := by
  induction bs generalizing cs with
  | nil =>
    cases cs with
    | nil => rfl
    | cons c cs =>
      have hnil := List.append_eq_nil_iff.mp (heq.symm.trans List.flatMap_nil)
      exact absurd hnil.1 (h.ne_nil c (hcs c (List.mem_cons_self ..)))
  | cons b bs ih =>
    have hb := hbs b (List.mem_cons_self ..)
    cases cs with
    | nil =>
      have hnil := List.append_eq_nil_iff.mp (heq.trans List.flatMap_nil)
      exact absurd hnil.1 (h.ne_nil b hb)
    | cons c cs =>
      have hc := hcs c (List.mem_cons_self ..)
      rw [List.flatMap_cons, List.flatMap_cons] at heq
      have hlength : (word b).length = (word c).length := by
        rw [← h.width_append b hb (bs.flatMap word), heq, h.width_append c hc]
      obtain ⟨hword, htail⟩ := List.append_inj heq hlength
      rw [h.injective b c hb hc hword, ih (fun d hd => hbs d (List.mem_cons_of_mem b hd))
        (fun d hd => hcs d (List.mem_cons_of_mem c hd)) htail]

/-- A text is split at the first of its marks in one way only. -/
lemma append_cons_inj_of_first [DecidableEq α] {front front' rest rest' : List α} {stop : α}
    (hfront : stop ∉ front) (hfront' : stop ∉ front')
    (h : front ++ stop :: rest = front' ++ stop :: rest') : front = front' ∧ rest = rest' := by
  have hindex := congrArg (List.idxOf stop) h
  rw [List.idxOf_append, List.idxOf_append, if_neg hfront, if_neg hfront', List.idxOf_cons_self,
    List.idxOf_cons_self, Nat.zero_add, Nat.zero_add] at hindex
  obtain ⟨rfl, htail⟩ := List.append_inj h hindex
  exact ⟨rfl, (List.cons_eq_cons.mp htail).2⟩

/-- Words that differ in what stands in front of a mark are a code if the mark is nowhere else in
front of their common end. -/
lemma isCode_of_stop [DecidableEq α] {P : β → Prop} {body : β → List α} {stop : α} (tail : List α)
    (hstop : ∀ b, P b → stop ∉ body b)
    (hbody : ∀ b c, P b → P c → body b = body c → b = c) :
    IsCode P (fun b => body b ++ stop :: tail) fun cs => cs.idxOf stop + (tail.length + 1) where
  ne_nil b _ := by simp
  width_append b hb rest := by
    rw [List.append_assoc, List.cons_append, List.idxOf_append, if_neg (hstop b hb),
      List.idxOf_cons_self, List.length_append, List.length_cons]
    omega
  injective b c hb hc h := hbody b c hb hc (List.append_cancel_right h)

end FrontEnd
