import FrontEnd.Proofs.Dump.Gaps
import FrontEnd.Proofs.Printing.Digits

/-!
# Dumps that stop, and dumps of mended trees

A tree is mended by putting nodes in its gaps, one after the other in the order of the dump. What
the dump of a tree has written when it stops is the beginning of the dump of every tree that it is
mended to, and what goes on there is the node in the first gap.
-/

namespace FrontEnd

/-- A tree without gaps. -/
structure Node where
  tree : Tree
  complete : tree.gaps 0 = []

/-- Takes the next node for a gap, as long as there is one. -/
def nextNode {α : Type} (none : α) (some : Node → α) : StateM (List Node) α := fun
  | [] => (none, [])
  | x :: xs => (some x, xs)

@[simp] lemma map_nextNode {α β : Type} (f : α → β) (none : α) (some : Node → α) :
    f <$> nextNode none some = nextNode (f none) fun x => f (some x) := by
  funext nodes
  cases nodes <;> rfl

namespace Tree

mutual

/-- Puts nodes in the gaps of a tree, in the order of its dump. -/
@[simp] def mend : Tree → StateM (List Node) Tree
  | alien a => nextNode (alien a) Node.tree
  | program fields methods => return program (← mendAll fields) (← mendAll methods)
  | field name constant value =>
    return field name constant (← value.ifAbsent (pure value) (mend value))
  | method name parameters body => return method name parameters (← mendAll body)
  | effect expression => return effect (← mend expression)
  | declaration name value => return declaration name (← value.ifAbsent (pure value) (mend value))
  | assignment receiver value => return assignment (← mend receiver) (← mend value)
  | branch condition thenPart elsePart =>
    return branch (← mend condition) (← mendAll thenPart) (← mendAll elsePart)
  | forLoop initialization condition increment body =>
    return forLoop (← initialization.ifAbsent (pure initialization) (mend initialization))
      (← mend condition) (← increment.ifAbsent (pure increment) (mend increment))
      (← mendAll body)
  | whileLoop condition body => return whileLoop (← mend condition) (← mendAll body)
  | exit value => return exit (← value.ifAbsent (pure value) (mend value))
  | literal value =>
    if value.isOverlong then nextNode (literal value) Node.tree else pure (literal value)
  | group content => return group (← mend content)
  | access receiver name =>
    return access (← receiver.ifAbsent (pure receiver) (mend receiver)) name
  | call receiver name arguments =>
    return call (← receiver.ifAbsent (pure receiver) (mend receiver)) name (← mendAll arguments)
  | binary operator left right => return binary operator (← mend left) (← mend right)

@[simp] def mendAll : List Tree → StateM (List Node) (List Tree)
  | [] => return []
  | t :: ts => return (← mend t) :: (← mendAll ts)

end

/-- The tree with nodes in its gaps. -/
def mended (t : Tree) (nodes : List Node) : Tree := (t.mend nodes).1

end Tree

namespace Outline

/-- Puts the items of nodes in the place of gaps. -/
@[simp] def mendItems : List Item → StateM (List Node) (List Item)
  | [] => return []
  | .row r :: is => return .row r :: (← mendItems is)
  | .gap g :: is =>
    return (← nextNode [.gap g] fun x => x.tree.outline.items g.depth) ++ (← mendItems is)

@[simp] lemma mendItems_append (is js : List Item) :
    mendItems (is ++ js) = return (← mendItems is) ++ (← mendItems js) := by
  induction is with
  | nil => simp
  | cons i is ih =>
    cases i with
    | row r => simp [ih]
    | gap g =>
      simp only [List.cons_append, mendItems, ih, bind_assoc, pure_bind, List.append_assoc]

/-- What is in front of the first gap stays, and that gap takes the first node. -/
lemma mendItems_front {front : List Item} (h : gapsOf front = []) (g : Gap) (more : List Item)
    (x : Node) (nodes : List Node) :
    (mendItems (front ++ .gap g :: more) (x :: nodes)).1 =
      front ++ (x.tree.outline.items g.depth ++ (mendItems more nodes).1) := by
  induction front with
  | nil => rfl
  | cons i front ih =>
    cases i with
    | row r => exact congrArg (Item.row r :: ·) (ih h)
    | gap g' => cases h

lemma gapsOf_node (x : Node) (depth : Nat) : gapsOf (x.tree.outline.items depth) = [] := by
  have hcomplete := x.complete
  rw [← Tree.gaps_eq] at hcomplete
  exact gapsOf_items x.tree.outline hcomplete

/-- As many nodes as there are gaps mend all of them. -/
lemma gapsOf_mendItems {is : List Item} {nodes : List Node}
    (h : nodes.length = (gapsOf is).length) : gapsOf (mendItems is nodes).1 = [] := by
  induction is generalizing nodes with
  | nil => rfl
  | cons i is ih =>
    cases i with
    | row r => exact ih h
    | gap g =>
      cases nodes with
      | nil => cases h
      | cons x xs =>
        have hgaps : gapsOf (x.tree.outline.items g.depth ++ (mendItems is xs).1) = [] := by
          rw [gapsOf_append, gapsOf_node x, ih (Nat.succ.inj h), List.append_nil]
        exact hgaps

mutual

/-- Puts the outlines of nodes in the place of obstacles. -/
@[simp] def mend : Outline → StateM (List Node) Outline
  | entry heading below => return entry heading (← mendAll below)
  | obstacle o => nextNode (obstacle o) fun x => x.tree.outline

@[simp] def mendAll : List Outline → StateM (List Node) (List Outline)
  | [] => return []
  | o :: os => return (← mend o) :: (← mendAll os)

end

mutual

theorem items_mend : (o : Outline) → (depth : Nat) →
    items depth <$> o.mend = mendItems (o.items depth)
  | entry _ below, depth => by simp [← itemsAll_mendAll below (depth + 1)]
  | obstacle _, _ => by simp

theorem itemsAll_mendAll : (os : List Outline) → (depth : Nat) →
    itemsAll depth <$> mendAll os = mendItems (itemsAll depth os)
  | [], _ => rfl
  | o :: os, depth => by simp [← items_mend o, ← itemsAll_mendAll os]

end

@[simp] lemma mendAll_append (os us : List Outline) :
    mendAll (os ++ us) = return (← mendAll os) ++ (← mendAll us) := by
  induction os with
  | nil => simp
  | cons o os ih => simp [ih]

@[simp] lemma mendAll_headed (heading : String) (os : List Outline) :
    mendAll (headed heading os) = headed heading <$> mendAll os := by
  cases os with
  | nil => rfl
  | cons o os => simp [headed]

end Outline

lemma Node.ne_absence (x : Node) : x.tree ≠ .alien .absence := by
  intro h
  have hcomplete := x.complete
  rw [h] at hcomplete
  cases hcomplete

namespace Tree

/-- What is not absent is not so when it is mended. -/
lemma mend_ne_absence {t : Tree} (h : t ≠ alien .absence) (nodes : List Node) :
    (t.mend nodes).1 ≠ alien .absence := by
  have hnext : ∀ u : Tree, u ≠ alien .absence →
      (nextNode u Node.tree nodes).1 ≠ alien .absence := by
    intro u hu
    cases nodes with
    | nil => exact hu
    | cons x xs => exact x.ne_absence
  cases t with
  | alien a => exact hnext _ h
  | literal v =>
    rw [mend]
    split
    · exact hnext _ h
    · exact h
  | _ => exact nofun

section

variable {t : Tree} (h : outline <$> t.mend = t.outline.mend)

include h

lemma mend_marked :
    (fun u => u.outline.marked) <$> t.ifAbsent (pure t) t.mend = t.outline.marked.mend := by
  by_cases ht : t = alien .absence
  · subst ht
    rfl
  · rw [ifAbsent_of_ne ht, marked_of_ne ht, ← h]
    funext nodes
    exact congrArg (·, (t.mend nodes).2) (marked_of_ne (mend_ne_absence ht nodes))

lemma mend_ifPresent :
    (fun u => u.outline.ifPresent) <$> t.ifAbsent (pure t) t.mend =
      Outline.mendAll t.outline.ifPresent := by
  by_cases ht : t = alien .absence
  · subst ht
    rfl
  · rw [ifAbsent_of_ne ht, ifPresent_of_ne ht]
    simp only [Outline.mendAll, ← h]
    funext nodes
    exact congrArg (·, (t.mend nodes).2) (ifPresent_of_ne (mend_ne_absence ht nodes))

end

lemma length_mendAll (ts : List Tree) (nodes : List Node) :
    (mendAll ts nodes).1.length = ts.length := by
  induction ts generalizing nodes with
  | nil => rfl
  | cons t ts ih => exact congrArg Nat.succ (ih _)

/-- Mending keeps the number of trees, which the heading of a call tells. -/
lemma map_mendAll {α : Type} {f g : List Tree → α} {ts : List Tree}
    (h : ∀ us, us.length = ts.length → f us = g us) : f <$> mendAll ts = g <$> mendAll ts := by
  funext nodes
  exact congrArg (·, (mendAll ts nodes).2) (h _ (length_mendAll ts nodes))

mutual

theorem outline_mend : (t : Tree) → outline <$> t.mend = t.outline.mend
  | alien a => map_nextNode outline (alien a) Node.tree
  | program fields methods => by simp [← outlines_mendAll fields, ← outlines_mendAll methods]
  | field _ _ value => by simp [← mend_marked (outline_mend value)]
  | method _ _ body => by simp [← outlines_mendAll body]
  | effect expression => by simp [← outline_mend expression]
  | declaration _ value => by simp [← mend_marked (outline_mend value)]
  | assignment receiver value => by simp [← outline_mend receiver, ← outline_mend value]
  | branch condition thenPart elsePart => by
    simp [← outline_mend condition, ← outlines_mendAll thenPart, ← outlines_mendAll elsePart]
  | forLoop initialization condition increment body => by
    simp [← mend_marked (outline_mend initialization), ← outline_mend condition,
      ← mend_marked (outline_mend increment), ← outlines_mendAll body]
  | whileLoop condition body => by simp [← outline_mend condition, ← outlines_mendAll body]
  | exit value => by simp [← mend_marked (outline_mend value)]
  | literal value => by
    cases hv : value.isOverlong <;> simp [hv]
  | group content => by simp [← outline_mend content]
  | access receiver _ => by simp [← mend_ifPresent (outline_mend receiver)]
  | call receiver _ arguments => by
    simp only [outline, mend, Outline.mend, Outline.mendAll_append,
      ← mend_ifPresent (outline_mend receiver), ← outlines_mendAll arguments, map_bind,
      bind_map_left, bind_pure_comp, Functor.map_map]
    apply bind_congr
    intro r
    apply map_mendAll
    intro us hus
    rw [hus]
  | binary _ left right => by simp [← outline_mend left, ← outline_mend right]

theorem outlines_mendAll : (ts : List Tree) →
    outlines <$> mendAll ts = Outline.mendAll (outlines ts)
  | [] => rfl
  | t :: ts => by simp [← outline_mend t, ← outlines_mendAll ts]

end

lemma dump_mended (t : Tree) (nodes : List Node) :
    (t.mended nodes).dump = .ofItems (Outline.mendItems (t.outline.items 0) nodes).1 := by
  have houtline : (t.mended nodes).outline = (t.outline.mend nodes).1 :=
    congrArg (fun m => (m nodes).1) t.outline_mend
  rw [dump_eq, houtline, ← t.outline.items_mend 0]
  rfl

end Tree

/-- A dump writes what stands in front of the first gap of the tree and stops there, for what is in
that gap. Whatever node is put in its place, and with nodes in the gaps behind it, the dump is
complete: it goes on with that node at the depth of the gap, and then with what does not depend on
the node. A tree without gaps is dumped completely. -/
theorem dump_stops_at_first_gap (t : Tree) :
    (t.gaps 0 = [] → t.dump.stop = none) ∧
    ∀ g later, t.gaps 0 = g :: later →
      t.dump.stop = some g.obstacle ∧
      ∀ nodes : List Node, nodes.length = later.length →
        ∃ rest : String, ∀ x : Node,
          (t.mended (x :: nodes)).dump.stop = none ∧
          (t.mended (x :: nodes)).dump.text =
            t.dump.text ++ (x.tree.outline.listing g.depth).text ++ rest := by
  rw [← t.gaps_eq, t.dump_eq]
  refine ⟨Listing.stop_ofItems, fun g later h => ?_⟩
  obtain ⟨front, more, hitems, hfront, hmore⟩ := Outline.exists_first_gap h
  rw [hitems, Listing.ofItems_front hfront]
  refine ⟨rfl, fun nodes hnodes => ?_⟩
  refine ⟨(Listing.ofItems (Outline.mendItems more nodes).1).text, fun x => ?_⟩
  have hstop := Listing.stop_ofItems hfront
  have hx := Listing.stop_ofItems (Outline.gapsOf_node x g.depth)
  have hrest := Listing.stop_ofItems (Outline.gapsOf_mendItems (hmore ▸ hnodes))
  rw [t.dump_mended, hitems, Outline.mendItems_front hfront, Listing.ofItems_append,
    Listing.ofItems_append, Outline.listing_eq]
  refine ⟨?stop, ?text⟩
  case stop => simp [Listing.append, hstop, hx, hrest]
  case text =>
    rw [Listing.text_append hstop, Listing.text_append hx, ← String.append_assoc]
    rfl

/-- A text among statements and a value of another type inside a group, behind a return without a
value, which is fine. -/
theorem text_among_statements_stops_dump :
    let t := Tree.method "f" [] [.exit (.alien .absence), .alien .text,
      .exit (.group (.alien (.other "object")))]
    let x : Node := ⟨.effect (.access (.alien .absence) "a"), rfl⟩
    t.gaps 0 = [⟨1, .alien .text⟩, ⟨3, .alien (.other "object")⟩] ∧
    t.dump = ⟨[⟨0, "Method f()"⟩, ⟨1, "Return"⟩, ⟨2, "-"⟩], some (.alien .text)⟩ ∧
    ∃ rest : String, (t.mended [x, ⟨.access (.alien .absence) "b", rfl⟩]).dump.text =
      t.dump.text ++ (x.tree.outline.listing 1).text ++ rest := by
  intro t x
  have hgaps : t.gaps 0 = [⟨1, .alien .text⟩, ⟨3, .alien (.other "object")⟩] := rfl
  obtain ⟨-, hnodes⟩ := (dump_stops_at_first_gap t).2 _ _ hgaps
  obtain ⟨rest, hrest⟩ := hnodes [⟨.access (.alien .absence) "b", rfl⟩] rfl
  exact ⟨hgaps, by decide +kernel, rest, (hrest x).2⟩

lemma lt_length_toDigits (n : Nat) : n < (Nat.toDigits 10 (10 ^ n)).length := by
  have hlt := digitsValue_lt fun d hd => isDigit_of_mem_toDigits (n := 10 ^ n) hd
  rw [digitsValue_toDigits] at hlt
  exact (Nat.pow_lt_pow_iff_right (by decide)).mp hlt

/-- An integer constant alone is a syntax tree in which nothing else stands, but if the integer is
too long it is not dumped. -/
theorem overlong_integer_not_dumped :
    (∀ g ∈ (Tree.literal (.integer (10 ^ maxIntegerDigits))).gaps 0, ∀ a, g.obstacle ≠ .alien a) ∧
    (Tree.literal (.integer (10 ^ maxIntegerDigits))).dump = ⟨[], some .overlong⟩ := by
  have hlong : ∀ n, maxIntegerDigits ≤ n → (Literal.integer (10 ^ n)).isOverlong = true := by
    intro n hn
    rw [Literal.isOverlong, Int.natAbs_pow]
    exact decide_eq_true (hn.trans_lt (lt_length_toDigits n))
  have h := hlong maxIntegerDigits (Nat.le_refl _)
  constructor
  · simp [Tree.gaps, h]
  · rw [Tree.dump, Tree.outline, if_pos h]
    rfl

end FrontEnd
