import Bylaws.Forest.Basic
import Mathlib.Algebra.Order.Group.Multiset
import Mathlib.Tactic.Abel

/-!
# Ordered forests

The content of a document without places: every node has an id and fields, and the order of the
nodes is the order of the siblings. `Forest.rows` gives the nodes places, which makes the
paragraphs that a store holds for the forest; `Forest.lines` lists the nodes in document order
with their depths.
-/

namespace Bylaws

/-- A forest: the first tree, given by its root and what is below it, and the trees after it. -/
inductive Forest where
  | nil
  | cons (id : Int) (fields : Fields) (below rest : Forest)
  deriving DecidableEq, Repr, Inhabited

/-- A paragraph as the document order shows it. -/
structure Line where
  id : Int
  fields : Fields
  depth : Nat
  deriving DecidableEq, Repr

/-- The line of a paragraph at a depth. -/
def Line.of (e : Paragraph × Nat) : Line := ⟨e.1.id, e.1.fields, e.2⟩

/-- The id and the fields of a line. -/
def Line.content (l : Line) : Int × Fields := (l.id, l.fields)

/-- The id and the fields of a paragraph. -/
def Paragraph.content (p : Paragraph) : Int × Fields := (p.id, p.fields)

/-- The same line one level further down. -/
def Line.deeper (l : Line) : Line := { l with depth := l.depth + 1 }

namespace Forest

/-- The trees of one forest and then those of another. -/
def append : Forest → Forest → Forest
  | nil, g => g
  | cons id fields below rest, g => cons id fields below (rest.append g)

instance : Append Forest := ⟨append⟩

/-- A forest of one tree. -/
def tree (id : Int) (fields : Fields) (below : Forest) : Forest := cons id fields below nil

/-- The number of trees. -/
def width : Forest → Nat
  | nil => 0
  | cons _ _ _ rest => rest.width + 1

/-- The nodes in document order, the topmost ones at some depth. -/
def lines (depth : Nat) : Forest → List Line
  | nil => []
  | cons id fields below rest =>
    ⟨id, fields, depth⟩ :: (below.lines (depth + 1) ++ rest.lines depth)

/-- The ids in document order. -/
def ids (f : Forest) : List Int := (f.lines 0).map Line.id

/-! ## Places -/

/-- The paragraph of a node that is put at a place. -/
def row (doc : String) (parent : Option Int) (position : Int) (id : Int) (fields : Fields) :
    Paragraph :=
  { fields with id, documentId := doc, parent, position }

section Row

variable (doc : String) (parent : Option Int) (position id : Int) (fields : Fields)

@[simp] theorem row_id : (row doc parent position id fields).id = id := rfl

@[simp] theorem row_parent : (row doc parent position id fields).parent = parent := rfl

@[simp] theorem row_position : (row doc parent position id fields).position = position := rfl

@[simp] theorem row_fields : (row doc parent position id fields).fields = fields := rfl

end Row

/-- The paragraphs of the topmost nodes, in order, from a position on. -/
def heads (doc : String) (parent : Option Int) (position : Int) : Forest → List Paragraph
  | nil => []
  | cons id fields _ rest =>
    row doc parent position id fields :: rest.heads doc parent (position + 1)

/-- The paragraphs of all nodes but the topmost. -/
def deeper (doc : String) : Forest → Multiset Paragraph
  | nil => 0
  | cons id _ below rest => ↑(below.heads doc (some id) 1) + below.deeper doc + rest.deeper doc

/-- The paragraphs of a forest that lies below `parent`. -/
def rows (doc : String) (parent : Option Int) (f : Forest) : Multiset Paragraph :=
  ↑(f.heads doc parent 1) + f.deeper doc

/-- The forest as nodes with their paragraphs. -/
def nodes (doc : String) (parent : Option Int) (position : Int) : Forest → List Node
  | nil => []
  | cons id fields below rest =>
    .mk (row doc parent position id fields) (below.nodes doc (some id) 1) ::
      rest.nodes doc parent (position + 1)

/-! ## Appending -/

@[simp] theorem nil_append (g : Forest) : nil ++ g = g := rfl

@[simp] theorem cons_append (id : Int) (fields : Fields) (below rest g : Forest) :
    cons id fields below rest ++ g = cons id fields below (rest ++ g) := rfl

@[simp] theorem append_nil (f : Forest) : f ++ nil = f := by
  induction f with
  | nil => rfl
  | cons id fields below rest _ ih => rw [cons_append, ih]

theorem append_assoc (f g h : Forest) : f ++ g ++ h = f ++ (g ++ h) := by
  induction f with
  | nil => rfl
  | cons id fields below rest _ ih => simp only [cons_append, ih]

theorem tree_append (id : Int) (fields : Fields) (below g : Forest) :
    tree id fields below ++ g = cons id fields below g := rfl

@[simp] theorem width_nil : nil.width = 0 := rfl

@[simp] theorem width_tree (id : Int) (fields : Fields) (below : Forest) :
    (tree id fields below).width = 1 := rfl

@[simp] theorem width_append (f g : Forest) : (f ++ g).width = f.width + g.width := by
  induction f with
  | nil => exact (Nat.zero_add _).symm
  | cons id fields below rest _ ih =>
    show (rest ++ g).width + 1 = rest.width + 1 + g.width
    rw [ih]
    omega

@[simp] theorem lines_nil (depth : Nat) : nil.lines depth = [] := rfl

theorem lines_tree (id : Int) (fields : Fields) (below : Forest) (depth : Nat) :
    (tree id fields below).lines depth = ⟨id, fields, depth⟩ :: below.lines (depth + 1) := by
  show _ :: (below.lines (depth + 1) ++ []) = _
  rw [List.append_nil]

@[simp] theorem lines_append (f g : Forest) (depth : Nat) :
    (f ++ g).lines depth = f.lines depth ++ g.lines depth := by
  induction f with
  | nil => rfl
  | cons id fields below rest _ ih => simp only [cons_append, lines, ih, List.append_assoc,
      List.cons_append]

@[simp] theorem heads_append (doc : String) (parent : Option Int) (k : Int) (f g : Forest) :
    (f ++ g).heads doc parent k = f.heads doc parent k ++ g.heads doc parent (k + f.width) := by
  induction f generalizing k with
  | nil => simp [heads, width]
  | cons id fields below rest _ ih =>
    have h : k + 1 + (rest.width : Int) = k + ((rest.width + 1 : Nat) : Int) := by omega
    simp only [cons_append, heads, ih, List.cons_append, width, h]

@[simp] theorem heads_tree (doc : String) (parent : Option Int) (k : Int) (id : Int)
    (fields : Fields) (below : Forest) :
    (tree id fields below).heads doc parent k = [row doc parent k id fields] := rfl

@[simp] theorem deeper_append (doc : String) (f g : Forest) :
    (f ++ g).deeper doc = f.deeper doc + g.deeper doc := by
  induction f with
  | nil => exact (zero_add (g.deeper doc)).symm
  | cons id fields below rest _ ih => simp only [cons_append, deeper, ih, add_assoc]

@[simp] theorem deeper_tree (doc : String) (id : Int) (fields : Fields) (below : Forest) :
    (tree id fields below).deeper doc = below.rows doc (some id) :=
  add_zero (below.rows doc (some id))

@[simp] theorem rows_nil (doc : String) (parent : Option Int) : nil.rows doc parent = 0 := rfl

/-- A forest is empty or ends with a tree. -/
theorem eq_nil_or_append_tree (f : Forest) :
    f = nil ∨ ∃ g id fields below, f = g ++ tree id fields below := by
  induction f with
  | nil => exact .inl rfl
  | cons id fields below rest _ ih =>
    right
    rcases ih with rfl | ⟨g, id', fields', below', rfl⟩
    · exact ⟨nil, id, fields, below, rfl⟩
    · exact ⟨cons id fields below g, id', fields', below', rfl⟩

/-! ## Document order -/

theorem lines_succ (f : Forest) (depth : Nat) :
    f.lines (depth + 1) = (f.lines depth).map Line.deeper := by
  induction f generalizing depth with
  | nil => rfl
  | cons id fields below rest ih₁ ih₂ =>
    simp only [lines, ih₁, ih₂, List.map_cons, List.map_append, Line.deeper]

theorem map_id_lines (f : Forest) (depth : Nat) : (f.lines depth).map Line.id = f.ids := by
  induction depth with
  | zero => rfl
  | succ depth ih =>
    rw [lines_succ, List.map_map, ← ih]
    rfl

@[simp] theorem ids_nil : nil.ids = [] := rfl

@[simp] theorem ids_cons (id : Int) (fields : Fields) (below rest : Forest) :
    (cons id fields below rest).ids = id :: (below.ids ++ rest.ids) := by
  show (List.map Line.id (⟨id, fields, 0⟩ :: (below.lines 1 ++ rest.lines 0))) = _
  rw [List.map_cons, List.map_append, map_id_lines, map_id_lines]

@[simp] theorem ids_append (f g : Forest) : (f ++ g).ids = f.ids ++ g.ids := by
  unfold ids
  rw [lines_append, List.map_append]

/-- The nodes of a placed forest, read in document order, are its lines. -/
theorem walkForest_nodes (doc : String) (parent : Option Int) (k : Int) (f : Forest)
    (depth : Nat) : (walkForest depth (f.nodes doc parent k)).map Line.of = f.lines depth := by
  induction f generalizing parent k depth with
  | nil => rfl
  | cons id fields below rest ih₁ ih₂ =>
    simp only [nodes, walkForest, Node.walk, List.cons_append, List.map_cons, List.map_append,
      ih₁, ih₂, lines]
    rfl

/-! ## The paragraphs of a forest -/

theorem mem_heads {doc : String} {parent : Option Int} {k : Int} {f : Forest} {p : Paragraph}
    (h : p ∈ f.heads doc parent k) :
    p.parent = parent ∧ p.id ∈ f.ids ∧ k ≤ p.position ∧ p.position < k + f.width := by
  induction f generalizing k with
  | nil => exact absurd h List.not_mem_nil
  | cons id fields below rest _ ih =>
    rw [ids_cons]
    show _ ∧ _ ∧ _ ∧ p.position < k + ((rest.width + 1 : Nat) : Int)
    rcases List.mem_cons.1 h with rfl | h
    · refine ⟨rfl, List.mem_cons_self, Int.le_refl k, ?_⟩
      show k < _
      omega
    · obtain ⟨h₁, h₂, h₃, h₄⟩ := ih h
      exact ⟨h₁, List.mem_cons_of_mem _ (List.mem_append_right _ h₂), by omega, by omega⟩

/-- A node that is not topmost lies below a node of the forest. -/
theorem mem_deeper {doc : String} {f : Forest} {p : Paragraph} (h : p ∈ f.deeper doc) :
    p.id ∈ f.ids ∧ ∃ id ∈ f.ids, p.parent = some id := by
  induction f with
  | nil => exact absurd h (Multiset.notMem_zero p)
  | cons id fields below rest ih₁ ih₂ =>
    rw [ids_cons]
    rcases Multiset.mem_add.1 h with h | h
    · rcases Multiset.mem_add.1 h with h | h
      · obtain ⟨h₁, h₂, _⟩ := mem_heads (Multiset.mem_coe.1 h)
        exact ⟨List.mem_cons_of_mem _ (List.mem_append_left _ h₂), id, List.mem_cons_self, h₁⟩
      · obtain ⟨h₁, id', h₂, h₃⟩ := ih₁ h
        exact ⟨List.mem_cons_of_mem _ (List.mem_append_left _ h₁), id',
          List.mem_cons_of_mem _ (List.mem_append_left _ h₂), h₃⟩
    · obtain ⟨h₁, id', h₂, h₃⟩ := ih₂ h
      exact ⟨List.mem_cons_of_mem _ (List.mem_append_right _ h₁), id',
        List.mem_cons_of_mem _ (List.mem_append_right _ h₂), h₃⟩

theorem map_content_heads_add_deeper (doc : String) (parent : Option Int) (k : Int) (f : Forest)
    (depth : Nat) :
    (((f.heads doc parent k).map Paragraph.content : List (Int × Fields)) :
      Multiset (Int × Fields)) + (f.deeper doc).map Paragraph.content =
      ((f.lines depth).map Line.content : List (Int × Fields)) := by
  induction f generalizing parent k depth with
  | nil => rfl
  | cons id fields below rest ih₁ ih₂ =>
    rw [lines, List.map_cons, List.map_append, ← Multiset.cons_coe, ← Multiset.coe_add,
      ← ih₁ (some id) 1, ← ih₂ parent (k + 1)]
    show (((id, fields) :: (rest.heads doc parent (k + 1)).map Paragraph.content :
      List (Int × Fields)) : Multiset (Int × Fields)) +
      ((↑(below.heads doc (some id) 1) + below.deeper doc + rest.deeper doc).map
        Paragraph.content) = _
    rw [← Multiset.cons_coe, Multiset.cons_add, Multiset.map_add, Multiset.map_add,
      Multiset.map_coe]
    exact congrArg ((id, fields) ::ₘ ·) (by abel)

/-- The paragraphs of a forest have the ids and the fields of its lines. -/
theorem map_content_rows (doc : String) (parent : Option Int) (f : Forest) (depth : Nat) :
    (f.rows doc parent).map Paragraph.content =
      ((f.lines depth).map Line.content : List (Int × Fields)) := by
  unfold rows
  rw [Multiset.map_add, Multiset.map_coe]
  exact map_content_heads_add_deeper doc parent 1 f depth

/-- The paragraphs of a forest have the ids of its nodes. -/
theorem map_id_rows (doc : String) (parent : Option Int) (f : Forest) :
    (f.rows doc parent).map (·.id) = (f.ids : Multiset Int) := by
  have h := congrArg (Multiset.map Prod.fst) (map_content_rows doc parent f 0)
  rw [Multiset.map_map, Multiset.map_coe, List.map_map] at h
  exact h

/-! ## Properties of all nodes -/

/-- All nodes have ids and fields with a property. -/
def All (P : Int → Fields → Prop) : Forest → Prop
  | nil => True
  | cons id fields below rest => P id fields ∧ below.All P ∧ rest.All P

@[simp] theorem all_append {P : Int → Fields → Prop} (f g : Forest) :
    (f ++ g).All P ↔ f.All P ∧ g.All P := by
  induction f with
  | nil => exact (iff_of_eq (true_and _)).symm
  | cons id fields below rest _ ih => simp only [cons_append, All, ih, and_assoc]

theorem all_iff {P : Int → Fields → Prop} (f : Forest) (depth : Nat) :
    f.All P ↔ ∀ l ∈ f.lines depth, P l.id l.fields := by
  induction f generalizing depth with
  | nil => simp [All]
  | cons id fields below rest ih₁ ih₂ =>
    simp only [All, lines, ih₁ (depth + 1), ih₂ depth, List.forall_mem_cons,
      List.forall_mem_append]

end Forest

end Bylaws
