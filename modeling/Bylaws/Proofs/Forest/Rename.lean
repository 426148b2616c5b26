import Bylaws.Proofs.Index
import Bylaws.Proofs.Outline
import Mathlib

/-!
# Renaming ids

The ids of paragraphs only name them. A paragraph, a forest and a place in one are renamed along
a map of ids, and whatever is made of a renamed forest is the renamed one of what is made of the
forest itself: the topmost paragraphs, all paragraphs, the document order, what is shown. A map
that keeps the order of ids keeps the order of siblings (`Paragraph.inOrder_rename`).
-/

namespace Bylaws

open Forest

/-- A paragraph under another id, with its parent under another id. -/
def Paragraph.rename (ρ : Int → Int) (p : Paragraph) : Paragraph :=
  { p with id := ρ p.id, parent := p.parent.map ρ }

/-- A paragraph with its depth, under another id. -/
def renameEntry (ρ : Int → Int) (e : Paragraph × Nat) : Paragraph × Nat := (e.1.rename ρ, e.2)

/-- A forest with other ids. -/
def Forest.rename (ρ : Int → Int) : Forest → Forest
  | nil => nil
  | cons id fields below rest => cons (ρ id) fields (below.rename ρ) (rest.rename ρ)

/-- A place in a forest with other ids. -/
def Hole.rename (ρ : Int → Int) : Hole → Hole
  | top => top
  | under left id fields right outer =>
    under (left.rename ρ) (ρ id) fields (right.rename ρ) (outer.rename ρ)

variable {ρ : Int → Int}

namespace Paragraph

section Fields

variable (ρ : Int → Int) (p : Paragraph)

@[simp] theorem rename_toFields : (p.rename ρ).toFields = p.toFields := rfl

@[simp] theorem rename_id : (p.rename ρ).id = ρ p.id := rfl

@[simp] theorem rename_parent : (p.rename ρ).parent = p.parent.map ρ := rfl

@[simp] theorem rename_position : (p.rename ρ).position = p.position := rfl

@[simp] theorem rename_documentId : (p.rename ρ).documentId = p.documentId := rfl

end Fields

theorem rename_row (ρ : Int → Int) (doc : String) (parent : Option Int) (position id : Int)
    (fields : Fields) :
    (row doc parent position id fields).rename ρ =
      row doc (parent.map ρ) position (ρ id) fields := rfl

/-- Only the names of a paragraph and its parent are asked for. -/
theorem rename_congr {ρ σ : Int → Int} {p : Paragraph} (hid : ρ p.id = σ p.id)
    (hparent : ∀ id, p.parent = some id → ρ id = σ id) : p.rename ρ = p.rename σ := by
  unfold rename
  rw [hid, Option.map_congr hparent]

theorem precedes_rename (hρ : StrictMono ρ) (p q : Paragraph) :
    (p.rename ρ).precedes (q.rename ρ) = p.precedes q := by
  rw [Bool.eq_iff_iff, precedes_iff, precedes_iff]
  simp [hρ.le_iff_le]

end Paragraph

theorem renameParagraph_id : Paragraph.rename id = id := by
  funext p
  obtain ⟨fields, i, documentId, parent, position⟩ := p
  cases parent <;> rfl

theorem renameEntry_id : renameEntry id = id := by
  funext e
  unfold renameEntry
  rw [renameParagraph_id]
  rfl

/-! ## Sorting -/

section Sorting

variable {α β : Type} {le : α → α → Bool} {le' : β → β → Bool} {f : α → β}

theorem insertBy_map (h : ∀ x y, le' (f x) (f y) = le x y) (x : α) (xs : List α) :
    insertBy le' (f x) (xs.map f) = (insertBy le x xs).map f := by
  induction xs with
  | nil => rfl
  | cons y ys ih =>
    rw [List.map_cons, insertBy, insertBy, h, ih]
    split <;> rfl

theorem sortBy_map (h : ∀ x y, le' (f x) (f y) = le x y) (xs : List α) :
    sortBy le' (xs.map f) = (sortBy le xs).map f := by
  induction xs with
  | nil => rfl
  | cons x xs ih => rw [List.map_cons, sortBy, ih, insertBy_map h, sortBy]

end Sorting

theorem Paragraph.inOrder_rename (hρ : StrictMono ρ) (ps : List Paragraph) :
    inOrder (ps.map (rename ρ)) = (inOrder ps).map (rename ρ) :=
  sortBy_map (precedes_rename hρ) ps

namespace Forest

variable (ρ : Int → Int)

@[simp] theorem rename_nil : nil.rename ρ = nil := rfl

@[simp] theorem rename_cons (id : Int) (fields : Fields) (below rest : Forest) :
    (cons id fields below rest).rename ρ =
      cons (ρ id) fields (below.rename ρ) (rest.rename ρ) := rfl

theorem rename_id (f : Forest) : f.rename id = f := by
  induction f with
  | nil => rfl
  | cons _ fields below rest ih₁ ih₂ => rw [rename, ih₁, ih₂, id]

@[simp] theorem rename_append (f g : Forest) : (f ++ g).rename ρ = f.rename ρ ++ g.rename ρ := by
  induction f with
  | nil => rfl
  | cons id fields below rest _ ih => rw [cons_append, rename, rename, ih, cons_append]

@[simp] theorem width_rename (f : Forest) : (f.rename ρ).width = f.width := by
  induction f with
  | nil => rfl
  | cons id fields below rest _ ih => rw [rename, width, width, ih]

@[simp] theorem ids_rename (f : Forest) : (f.rename ρ).ids = f.ids.map ρ := by
  induction f with
  | nil => rfl
  | cons id fields below rest ih₁ ih₂ => simp [ih₁, ih₂]

@[simp] theorem heads_rename (doc : String) (parent : Option Int) (k : Int) (f : Forest) :
    (f.rename ρ).heads doc (parent.map ρ) k = (f.heads doc parent k).map (Paragraph.rename ρ) := by
  induction f generalizing k with
  | nil => rfl
  | cons id fields below rest _ ih =>
    rw [rename, heads, heads, ih, List.map_cons, Paragraph.rename_row]

theorem deeper_rename (doc : String) (f : Forest) :
    (f.rename ρ).deeper doc = (f.deeper doc).map (Paragraph.rename ρ) := by
  induction f with
  | nil => rfl
  | cons id fields below rest ih₁ ih₂ =>
    have hheads := heads_rename ρ doc (some id) 1 below
    rw [Option.map_some] at hheads
    simp only [rename, deeper, ih₁, ih₂, hheads, Multiset.map_add, Multiset.map_coe]

theorem rows_rename (doc : String) (parent : Option Int) (f : Forest) :
    (f.rename ρ).rows doc (parent.map ρ) = (f.rows doc parent).map (Paragraph.rename ρ) := by
  unfold rows
  rw [heads_rename, deeper_rename, Multiset.map_add, Multiset.map_coe]

theorem walkForest_rename (doc : String) (parent : Option Int) (k : Int) (f : Forest)
    (depth : Nat) :
    walkForest depth ((f.rename ρ).nodes doc (parent.map ρ) k) =
      (walkForest depth (f.nodes doc parent k)).map (renameEntry ρ) := by
  induction f generalizing parent k depth with
  | nil => rfl
  | cons id fields below rest ih₁ ih₂ =>
    have hbelow := ih₁ (some id) 1 (depth + 1)
    rw [Option.map_some] at hbelow
    simp only [rename, nodes, walkForest, Node.walk, hbelow, ih₂, List.map_cons, List.map_append,
      List.cons_append]
    rfl

theorem shown_rename {choices : Choices} (f : Forest) :
    (f.rename ρ).shown choices = (f.shown choices).rename ρ := by
  induction f with
  | nil => rfl
  | cons id fields below rest ih₁ ih₂ =>
    rw [rename, shown, shown, ih₁, ih₂]
    split <;> rfl

end Forest

namespace Hole

variable (ρ : Int → Int)

theorem rename_plug (C : Hole) (g : Forest) :
    (C.plug g).rename ρ = (C.rename ρ).plug (g.rename ρ) := by
  induction C generalizing g with
  | top => rfl
  | under left id fields right outer ih =>
    rw [plug, ih, rename, plug, rename_append, rename_cons]

@[simp] theorem parent_rename (C : Hole) : (C.rename ρ).parent = C.parent.map ρ := by
  cases C <;> rfl

theorem ancestors_rename (doc : String) (C : Hole) :
    (C.rename ρ).ancestors doc = (C.ancestors doc).map (Paragraph.rename ρ) := by
  induction C with
  | top => rfl
  | under left id fields right outer ih =>
    rw [rename, ancestors, ancestors, ih, List.map_append, parent_rename, width_rename]
    rfl

end Hole

end Bylaws
