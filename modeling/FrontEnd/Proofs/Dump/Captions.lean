import FrontEnd.Proofs.Dump.Source
import FrontEnd.Proofs.Syntax.Equivalence

/-!
# Captions

Each line of the dump of a program shows a caption at its depth: a constant, or words that tell of
no constant. When the constants of a program are replaced, those among the captions are, and
nothing else changes.
-/

namespace FrontEnd

/-- What a line of a dump shows: words, or a constant. -/
inductive Caption where
  | words (depth : Nat) (heading : String)
  | constant (depth : Nat) (value : Literal)

namespace Caption

/-- The row that shows a caption. -/
@[simp] def row : Caption → Row
  | words depth heading => ⟨depth, heading⟩
  | constant depth value => ⟨depth, "Literal(" ++ value.text ++ ")"⟩

/-- The line that shows a caption, without its newline. -/
def line (c : Caption) : List Char := c.row.line

/-- The captions of what stands at an optional place, or the mark of its absence. -/
def optional {α : Type} (depth : Nat) (captions : α → List Caption) : Option α → List Caption
  | none => [words depth "-"]
  | some a => captions a

/-- A caption with its constant replaced. -/
@[simp] def mapConstant (f : Literal → Literal) : Caption → Caption
  | words depth heading => words depth heading
  | constant depth value => constant depth (f value)

end Caption

namespace Expression

mutual

/-- The captions of an expression, one for each line of its dump. -/
@[simp] def captions (depth : Nat) : Expression → List Caption
  | literal v => [.constant depth v]
  | group content => .words depth "Group" :: captions (depth + 1) content
  | name n => [.words depth ("Access " ++ n)]
  | member receiver n => .words depth ("Access " ++ n) :: captions (depth + 1) receiver
  | call n as =>
    .words depth ("Function " ++ n ++ "/" ++ toString as.length) :: captionsAll (depth + 1) as
  | methodCall receiver n as =>
    .words depth ("Function " ++ n ++ "/" ++ toString as.length) ::
      (captions (depth + 1) receiver ++ captionsAll (depth + 1) as)
  | binary o left right =>
    .words depth ("Binary " ++ o.symbol) ::
      (captions (depth + 1) left ++ captions (depth + 1) right)

@[simp] def captionsAll (depth : Nat) : List Expression → List Caption
  | [] => []
  | e :: es => captions depth e ++ captionsAll depth es

end

end Expression

namespace Binding

def initializationCaptions (depth : Nat) (b : Binding) : List Caption :=
  .words depth ("Declaration " ++ b.name) :: b.value.captions (depth + 1)

def incrementCaptions (depth : Nat) (b : Binding) : List Caption :=
  .words depth "Assignment" :: .words (depth + 1) ("Access " ++ b.name) ::
    b.value.captions (depth + 1)

end Binding

namespace Statement

mutual

/-- The captions of a statement, one for each line of its dump. -/
@[simp] def captions (depth : Nat) : Statement → List Caption
  | expression e => .words depth "ExpressionStatement" :: e.captions (depth + 1)
  | declaration n v =>
    .words depth ("Declaration " ++ n) ::
      Caption.optional (depth + 1) (Expression.captions (depth + 1)) v
  | assignment r v =>
    .words depth "Assignment" :: (r.captions (depth + 1) ++ v.captions (depth + 1))
  | branch c yes no =>
    .words depth "If" :: (c.captions (depth + 1) ++ .words (depth + 1) "Then" ::
      (captionsAll (depth + 2) yes ++
        if no.isEmpty then [] else .words (depth + 1) "Else" :: captionsAll (depth + 2) no))
  | forLoop i c j body =>
    .words depth "For" ::
      (Caption.optional (depth + 1) (Binding.initializationCaptions (depth + 1)) i ++
        (c.captions (depth + 1) ++
          (Caption.optional (depth + 1) (Binding.incrementCaptions (depth + 1)) j ++
            captionsAll (depth + 1) body)))
  | whileLoop c body =>
    .words depth "While" :: (c.captions (depth + 1) ++ captionsAll (depth + 1) body)
  | exit v =>
    .words depth "Return" :: Caption.optional (depth + 1) (Expression.captions (depth + 1)) v

@[simp] def captionsAll (depth : Nat) : List Statement → List Caption
  | [] => []
  | s :: ss => captions depth s ++ captionsAll depth ss

end

end Statement

def Field.captions (d : Field) : List Caption :=
  .words 1 ("Field" ++ (if d.constant then " CONST" else "") ++ " " ++ d.name) ::
    Caption.optional 2 (Expression.captions 2) d.value

def Method.captions (m : Method) : List Caption :=
  .words 1 ("Method " ++ m.name ++ "(" ++ ", ".intercalate m.parameters ++ ")") ::
    Statement.captionsAll 2 m.body

/-- The captions of a program, one for each line of its dump. -/
def Program.captions (p : Program) : List Caption :=
  .words 0 "Source" :: (p.fields.flatMap Field.captions ++ p.methods.flatMap Method.captions)

namespace Tree

lemma rows_marked_ofOption {α : Type} {f : α → Tree} {captions : α → List Caption} {depth : Nat}
    (ih : ∀ a, (f a).WellSpelled → (f a).outline.rows depth = (captions a).map Caption.row)
    (hne : ∀ a, alien .absence ≠ f a) {o : Option α} (h : (ofOption (o.map f)).Optional) :
    (ofOption (o.map f)).outline.marked.rows depth =
      (Caption.optional depth captions o).map Caption.row := by
  cases o with
  | none => rfl
  | some a =>
    have ha : (f a).WellSpelled := h.resolve_left (hne a).symm
    exact (congrArg (Outline.rows depth) (marked_outline ha)).trans (ih a ha)

lemma rowsAll_map {α : Type} {f : α → Tree} {captions : α → List Caption} {depth : Nat}
    (hrows : ∀ a, (f a).WellSpelled → (f a).outline.rows depth = (captions a).map Caption.row)
    {as : List α} (h : AllWellSpelled (as.map f)) :
    Outline.rowsAll depth (outlines (as.map f)) = (as.flatMap captions).map Caption.row := by
  induction as with
  | nil => rfl
  | cons a as ih =>
    rw [List.map_cons, outlines, Outline.rowsAll, hrows a h.1, ih h.2, List.flatMap_cons,
      List.map_append]

end Tree

namespace Expression

@[simp] lemma length_trees (es : List Expression) : (trees es).length = es.length := by
  induction es with
  | nil => rfl
  | cons e es ih => rw [trees, List.length_cons, ih, List.length_cons]

mutual

theorem rows_tree : (e : Expression) → (depth : Nat) → e.tree.WellSpelled →
    e.tree.outline.rows depth = (e.captions depth).map Caption.row
  | literal v, depth, h => by
    rw [tree, Tree.outline_literal h.2]
    rfl
  | group e, depth, h => by simp [rows_tree e _ h]
  | name n, depth, _ => rfl
  | member r n, depth, h => by
    have hr : r.tree.WellSpelled := h.1.resolve_left r.tree_ne_absence.symm
    simp [Tree.ifPresent_outline hr, rows_tree r _ hr]
  | call n es, depth, h => by simp [Outline.ifPresent, rows_trees es _ h.2.2]
  | methodCall r n es, depth, h => by
    have hr : r.tree.WellSpelled := h.1.resolve_left r.tree_ne_absence.symm
    simp [Tree.ifPresent_outline hr, rows_tree r _ hr, rows_trees es _ h.2.2]
  | binary o l r, depth, h => by simp [rows_tree l _ h.2.1, rows_tree r _ h.2.2]

theorem rows_trees : (es : List Expression) → (depth : Nat) → Tree.AllWellSpelled (trees es) →
    Outline.rowsAll depth (Tree.outlines (trees es)) = (captionsAll depth es).map Caption.row
  | [], _, _ => rfl
  | e :: es, depth, h => by
    rw [trees, Tree.outlines, Outline.rowsAll, captionsAll, List.map_append, rows_tree e _ h.1,
      rows_trees es _ h.2]

end

/-- The rows of an expression at an optional place. -/
lemma rows_ofOption {o : Option Expression} (h : (Tree.ofOption (o.map tree)).Optional)
    (depth : Nat) : (Tree.ofOption (o.map tree)).outline.marked.rows depth =
      (Caption.optional depth (captions depth) o).map Caption.row :=
  Tree.rows_marked_ofOption (fun e => e.rows_tree depth) tree_ne_absence h

end Expression

namespace Binding

lemma rows_initializationTree (depth : Nat) (b : Binding) (h : b.initializationTree.WellSpelled) :
    b.initializationTree.outline.rows depth =
      (b.initializationCaptions depth).map Caption.row := by
  have hv : b.value.tree.WellSpelled := h.2.resolve_left b.value.tree_ne_absence.symm
  simp [initializationTree, Tree.marked_outline hv, initializationCaptions, b.value.rows_tree _ hv]

lemma rows_incrementTree (depth : Nat) (b : Binding) (h : b.incrementTree.WellSpelled) :
    b.incrementTree.outline.rows depth = (b.incrementCaptions depth).map Caption.row := by
  simp [incrementTree, Outline.ifPresent, incrementCaptions, b.value.rows_tree _ h.2]

end Binding

namespace Statement

@[simp] lemma isEmpty_outlines (ss : List Statement) :
    (Tree.outlines (trees ss)).isEmpty = ss.isEmpty := by
  cases ss <;> rfl

mutual

theorem rows_tree : (s : Statement) → (depth : Nat) → s.tree.WellSpelled →
    s.tree.outline.rows depth = (s.captions depth).map Caption.row
  | expression e, depth, h => by simp [e.rows_tree _ h]
  | declaration n v, depth, h => by simp [Expression.rows_ofOption h.2]
  | assignment r v, depth, h => by simp [r.rows_tree _ h.1, v.rows_tree _ h.2]
  | branch c yes no, depth, h => by
    simp [apply_ite (List.map Caption.row), c.rows_tree _ h.1, rows_trees yes _ h.2.1,
      rows_trees no _ h.2.2]
  | forLoop i c j body, depth, h => by
    simp [c.rows_tree _ h.2.1, rows_trees body _ h.2.2.2,
      Tree.rows_marked_ofOption (Binding.rows_initializationTree (depth + 1)) nofun h.1,
      Tree.rows_marked_ofOption (Binding.rows_incrementTree (depth + 1)) nofun h.2.2.1]
  | whileLoop c body, depth, h => by simp [c.rows_tree _ h.1, rows_trees body _ h.2]
  | exit v, depth, h => by simp [Expression.rows_ofOption h]

theorem rows_trees : (ss : List Statement) → (depth : Nat) → Tree.AllWellSpelled (trees ss) →
    Outline.rowsAll depth (Tree.outlines (trees ss)) = (captionsAll depth ss).map Caption.row
  | [], _, _ => rfl
  | s :: ss, depth, h => by
    rw [trees, Tree.outlines, Outline.rowsAll, captionsAll, List.map_append, rows_tree s _ h.1,
      rows_trees ss _ h.2]

end

end Statement

lemma Field.rows_tree (d : Field) (h : d.tree.WellSpelled) :
    d.tree.outline.rows 1 = d.captions.map Caption.row := by
  simp [tree, captions, Expression.rows_ofOption h.2]

lemma Method.rows_tree (m : Method) (h : m.tree.WellSpelled) :
    m.tree.outline.rows 1 = m.captions.map Caption.row := by
  simp [tree, captions, Statement.rows_trees m.body _ h.2.2]

/-- The rows of the dump of a program are those of its captions. -/
theorem Program.rows_tree {p : Program} (h : p.tree.WellSpelled) :
    p.tree.outline.rows 0 = p.captions.map Caption.row := by
  rw [tree, Tree.outline, Outline.rows, Outline.rowsAll_append,
    Tree.rowsAll_map Field.rows_tree h.1.1, Tree.rowsAll_map Method.rows_tree h.2.1,
    ← List.map_append]
  rfl

section

variable (f : Literal → Literal)

namespace Caption

lemma map_optional {α β : Type} {g : α → β} {captions : α → List Caption}
    {captions' : β → List Caption}
    (ih : ∀ a, captions' (g a) = (captions a).map (mapConstant f)) (depth : Nat) (o : Option α) :
    optional depth captions' (o.map g) = (optional depth captions o).map (mapConstant f) := by
  cases o with
  | none => rfl
  | some a => exact ih a

end Caption

namespace Expression

@[simp] lemma length_mapAllConstants (es : List Expression) :
    (mapAllConstants f es).length = es.length := by
  induction es with
  | nil => rfl
  | cons e es ih => rw [mapAllConstants, List.length_cons, ih, List.length_cons]

mutual

@[simp] theorem captions_mapConstants : (e : Expression) → (depth : Nat) →
    (e.mapConstants f).captions depth = (e.captions depth).map (Caption.mapConstant f)
  | literal v, depth => rfl
  | group e, depth => by simp [captions_mapConstants e]
  | name n, depth => rfl
  | member r n, depth => by simp [captions_mapConstants r]
  | call n es, depth => by simp [captionsAll_mapConstants es]
  | methodCall r n es, depth => by simp [captions_mapConstants r, captionsAll_mapConstants es]
  | binary o l r, depth => by simp [captions_mapConstants l, captions_mapConstants r]

@[simp] theorem captionsAll_mapConstants : (es : List Expression) → (depth : Nat) →
    captionsAll depth (mapAllConstants f es) =
      (captionsAll depth es).map (Caption.mapConstant f)
  | [], _ => rfl
  | e :: es, depth => by
    rw [mapAllConstants, captionsAll, captionsAll, captions_mapConstants e,
      captionsAll_mapConstants es, List.map_append]

end

@[simp] lemma optional_captions_mapConstants (depth : Nat) (o : Option Expression) :
    Caption.optional depth (captions depth) (o.map (mapConstants f)) =
      (Caption.optional depth (captions depth) o).map (Caption.mapConstant f) :=
  Caption.map_optional f (fun e => e.captions_mapConstants f depth) depth o

end Expression

namespace Binding

lemma initializationCaptions_mapConstants (depth : Nat) (b : Binding) :
    (b.mapConstants f).initializationCaptions depth =
      (b.initializationCaptions depth).map (Caption.mapConstant f) := by
  simp [mapConstants, initializationCaptions]

lemma incrementCaptions_mapConstants (depth : Nat) (b : Binding) :
    (b.mapConstants f).incrementCaptions depth =
      (b.incrementCaptions depth).map (Caption.mapConstant f) := by
  simp [mapConstants, incrementCaptions]

end Binding

namespace Statement

@[simp] lemma isEmpty_mapAllConstants (ss : List Statement) :
    (mapAllConstants f ss).isEmpty = ss.isEmpty := by
  cases ss <;> rfl

mutual

@[simp] theorem captions_mapConstants : (s : Statement) → (depth : Nat) →
    (s.mapConstants f).captions depth = (s.captions depth).map (Caption.mapConstant f)
  | expression e, depth => by simp
  | declaration n v, depth => by simp
  | assignment r v, depth => by simp
  | branch c yes no, depth => by
    simp [apply_ite (List.map _), captionsAll_mapConstants yes, captionsAll_mapConstants no]
  | forLoop i c j body, depth => by
    simp [captionsAll_mapConstants body,
      Caption.map_optional f (Binding.initializationCaptions_mapConstants f (depth + 1)),
      Caption.map_optional f (Binding.incrementCaptions_mapConstants f (depth + 1))]
  | whileLoop c body, depth => by simp [captionsAll_mapConstants body]
  | exit v, depth => by simp

@[simp] theorem captionsAll_mapConstants : (ss : List Statement) → (depth : Nat) →
    captionsAll depth (mapAllConstants f ss) =
      (captionsAll depth ss).map (Caption.mapConstant f)
  | [], _ => rfl
  | s :: ss, depth => by
    rw [mapAllConstants, captionsAll, captionsAll, captions_mapConstants s,
      captionsAll_mapConstants ss, List.map_append]

end

end Statement

@[simp] lemma Field.captions_mapConstants (d : Field) :
    (d.mapConstants f).captions = d.captions.map (Caption.mapConstant f) := by
  rw [captions, captions, List.map_cons, ← Expression.optional_captions_mapConstants]
  rfl

@[simp] lemma Method.captions_mapConstants (m : Method) :
    (m.mapConstants f).captions = m.captions.map (Caption.mapConstant f) := by
  simp [mapConstants, captions]

/-- Replacing the constants of a program replaces those of its captions. -/
theorem Program.captions_mapConstants (p : Program) :
    (p.mapConstants f).captions = p.captions.map (Caption.mapConstant f) := by
  simp [mapConstants, captions, List.flatMap_map, List.map_flatMap]

end

end FrontEnd
