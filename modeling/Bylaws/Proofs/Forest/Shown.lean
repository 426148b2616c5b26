import Bylaws.Index
import Bylaws.Proofs.Store.Lineage

/-!
# Paragraphs that are shown

A paragraph is shown if the choices leave out neither it nor any paragraph above it, which
`Store.isShown` says by its lineage alone. In a forest the nodes that are shown are what remains
when every node that is left out is taken away with all below it (`Forest.shown`), and the
document order of a store that shows the forest has its lines (`Shows.shown_lines_eq`).
-/

namespace Bylaws

open Forest

/-- Whether the choices admit a paragraph with some fields. -/
def Fields.isIncluded (f : Fields) (choices : Choices) : Bool := Body.isIncluded f.body choices

theorem isIncluded_row (doc : String) (parent : Option Int) (position id : Int) (fields : Fields)
    (choices : Choices) :
    (row doc parent position id fields).isIncluded choices = fields.isIncluded choices := rfl

namespace Forest

variable {choices : Choices}

/-- What remains of a forest without the nodes that are left out and all below them. -/
def shown (choices : Choices) : Forest → Forest
  | nil => nil
  | cons id fields below rest =>
    if fields.isIncluded choices then cons id fields (below.shown choices) (rest.shown choices)
    else rest.shown choices

theorem shown_cons_of_included {id : Int} {fields : Fields} {below rest : Forest}
    (h : fields.isIncluded choices = true) :
    (cons id fields below rest).shown choices =
      cons id fields (below.shown choices) (rest.shown choices) := if_pos h

theorem shown_cons_of_omitted {id : Int} {fields : Fields} {below rest : Forest}
    (h : fields.isIncluded choices = false) :
    (cons id fields below rest).shown choices = rest.shown choices := if_neg (by simp [h])

theorem shown_append (f g : Forest) :
    (f ++ g).shown choices = f.shown choices ++ g.shown choices := by
  induction f with
  | nil => rfl
  | cons id fields below rest _ ih =>
    cases h : fields.isIncluded choices with
    | true => rw [cons_append, shown_cons_of_included h, shown_cons_of_included h, ih, cons_append]
    | false => rw [cons_append, shown_cons_of_omitted h, shown_cons_of_omitted h, ih]

/-- The position behind one more tree. -/
theorem one_add_width_append_tree (l : Forest) (id : Int) (fields : Fields) (below : Forest) :
    1 + ((l ++ tree id fields below).width : Int) = 1 + l.width + 1 := by
  rw [width_append, width_tree]
  omega

/-- The nodes that are shown, with the places that they have among all. -/
def shownNodes (choices : Choices) (doc : String) (parent : Option Int) (position : Int) :
    Forest → List Node
  | nil => []
  | cons id fields below rest =>
    if fields.isIncluded choices then
      .mk (row doc parent position id fields) (below.shownNodes choices doc (some id) 1) ::
        rest.shownNodes choices doc parent (position + 1)
    else rest.shownNodes choices doc parent (position + 1)

theorem walkForest_shownNodes (doc : String) (parent : Option Int) (k : Int) (f : Forest)
    (depth : Nat) :
    (walkForest depth (f.shownNodes choices doc parent k)).map Line.of =
      (f.shown choices).lines depth := by
  induction f generalizing parent k depth with
  | nil => rfl
  | cons id fields below rest ih₁ ih₂ =>
    cases h : fields.isIncluded choices with
    | true =>
      simp only [shownNodes, shown, h, if_true, walkForest, Node.walk, List.cons_append,
        List.map_cons, List.map_append, ih₁, ih₂, lines]
      rfl
    | false =>
      simp only [shownNodes, shown, h, Bool.false_eq_true, if_false, ih₂]

/-- The paragraphs of a placed forest, read in document order, are all of them. -/
theorem map_fst_walkForest_nodes (doc : String) (parent : Option Int) (k : Int) (f : Forest)
    (depth : Nat) :
    (((walkForest depth (f.nodes doc parent k)).map Prod.fst : List Paragraph) :
      Multiset Paragraph) = ↑(f.heads doc parent k) + f.deeper doc := by
  induction f generalizing parent k depth with
  | nil => rfl
  | cons id fields below rest ih₁ ih₂ =>
    simp only [nodes, walkForest, Node.walk, List.cons_append, List.map_cons, List.map_append,
      heads, deeper, ← Multiset.cons_coe, ← Multiset.coe_add, ih₁, ih₂,
      ← Multiset.singleton_add]
    abel

end Forest

namespace Hole

variable {choices : Choices}

/-- Whether all nodes on the way down to a hole are shown. -/
def isShown (choices : Choices) : Hole → Bool
  | top => true
  | under _ _ fields _ outer => outer.isShown choices && fields.isIncluded choices

/-- What is shown of a forest depends only on what is shown in a place of it. -/
theorem shown_plug_congr (C : Hole) {g g' : Forest} (h : g.shown choices = g'.shown choices) :
    (C.plug g).shown choices = (C.plug g').shown choices := by
  induction C generalizing g g' with
  | top => exact h
  | under left id fields right outer ih =>
    refine ih ?_
    rw [shown_append, shown_append]
    simp only [shown, h]

/-- What is in a place below a node that is left out is not shown. -/
theorem shown_plug_of_not_isShown {C : Hole} (h : C.isShown choices = false) (g g' : Forest) :
    (C.plug g).shown choices = (C.plug g').shown choices := by
  induction C generalizing g g' with
  | top => exact nomatch h
  | under left id fields right outer ih =>
    cases hf : fields.isIncluded choices with
    | false =>
      refine outer.shown_plug_congr ?_
      rw [shown_append, shown_append, shown_cons_of_omitted hf, shown_cons_of_omitted hf]
    | true =>
      have ho : outer.isShown choices = false := by simpa [isShown, hf] using h
      exact ih ho _ _

theorem all_isIncluded_ancestors (doc : String) (C : Hole) :
    (C.ancestors doc).all (·.isIncluded choices) = C.isShown choices := by
  induction C with
  | top => rfl
  | under left id fields right outer ih =>
    rw [ancestors, List.all_append, ih, isShown, List.all_cons, List.all_nil, Bool.and_true,
      isIncluded_row]

end Hole

namespace Store

variable {s : Store} {choices : Choices}

theorem mem_of_mem_branches (fuel : Nat) (parent : Option Int) (depth : Nat) :
    ∀ e ∈ walkForest depth (s.branches fuel parent), e.1 ∈ s.paragraphs := by
  induction fuel generalizing parent depth with
  | zero =>
    rw [branches, walkForest]
    exact fun e he => absurd he List.not_mem_nil
  | succ fuel ih =>
    unfold branches
    have hps : ∀ p ∈ s.children parent, p ∈ s.paragraphs := fun p hp => (mem_children.1 hp).1
    generalize s.children parent = ps at hps ⊢
    induction ps with
    | nil =>
      rw [List.map_nil, walkForest]
      exact fun e he => absurd he List.not_mem_nil
    | cons p ps ih' =>
      rw [List.forall_mem_cons] at hps
      rw [List.map_cons, walkForest, Node.walk, List.cons_append, List.forall_mem_cons,
        List.forall_mem_append]
      exact ⟨hps.1, ih (some p.id) (depth + 1), ih' hps.2⟩

/-- Every paragraph in document order is stored. -/
theorem mem_of_mem_walk : ∀ e ∈ s.walk, e.1 ∈ s.paragraphs :=
  mem_of_mem_branches s.rows.length none 1

/-- Whether a paragraph is shown: neither it nor any paragraph above it is left out. -/
def isShown (s : Store) (choices : Choices) (p : Paragraph) : Bool :=
  match s.lineage p with
  | .ok ps => ps.all (·.isIncluded choices)
  | .error _ => false

namespace Shows

variable {C : Hole} {f g : Forest}

/-- The trees of a place, cut behind a node and not before it. -/
theorem past {l b r : Forest} {id : Int} {fields : Fields}
    (h : s.Shows (C.plug (l ++ cons id fields b r))) :
    s.Shows (C.plug ((l ++ tree id fields b) ++ r)) := by
  rwa [append_assoc, tree_append]

theorem isShown_eq (h : s.Shows (C.plug g)) {p : Paragraph} (hparent : p.parent = C.parent) :
    s.isShown choices p = (C.isShown choices && p.isIncluded choices) := by
  unfold isShown
  rw [h.lineage_eq hparent]
  dsimp only
  rw [List.all_append, Hole.all_isIncluded_ancestors, List.all_cons, List.all_nil, Bool.and_true]

/-- The shown ones among the paragraphs of a place, read in document order. -/
theorem filter_walkForest (h : s.Shows (C.plug g)) {l g' : Forest} (hg : g = l ++ g')
    (depth : Nat) :
    (walkForest depth (g'.nodes s.documentId C.parent (1 + l.width))).filter
        (fun e => s.isShown choices e.1) =
      if C.isShown choices then
        walkForest depth (g'.shownNodes choices s.documentId C.parent (1 + l.width))
      else [] := by
  induction g' generalizing C g l depth with
  | nil => simp [nodes, shownNodes, walkForest]
  | cons id fields below rest ih₁ ih₂ =>
    subst hg
    have hrow : s.isShown choices (row s.documentId C.parent (1 + l.width) id fields) =
        (C.isShown choices && fields.isIncluded choices) := h.isShown_eq rfl
    have hbelow : (walkForest (depth + 1) (below.nodes s.documentId (some id) 1)).filter
        (fun e => s.isShown choices e.1) =
        if C.isShown choices && fields.isIncluded choices then
          walkForest (depth + 1) (below.shownNodes choices s.documentId (some id) 1)
        else [] := ih₁ h.under (l := nil) rfl (depth + 1)
    have hrest := ih₂ h.past (l := l ++ tree id fields below) rfl depth
    rw [one_add_width_append_tree] at hrest
    simp only [nodes, shownNodes, walkForest, Node.walk, List.cons_append, List.filter_cons,
      List.filter_append, hrow, hbelow, hrest]
    cases C.isShown choices with
    | false => simp
    | true => cases fields.isIncluded choices <;> simp [walkForest, Node.walk]

/-- The shown paragraphs in document order, with their depths. -/
theorem shown_walk_eq (h : s.Shows f) :
    s.walk.filter (fun e => s.isShown choices e.1) =
      walkForest 1 (f.shownNodes choices s.documentId none 1) := by
  unfold walk
  rw [h.forest_eq]
  exact h.filter_walkForest (C := .top) (l := nil) rfl 1

/-- The document order without the paragraphs that are not shown is that of what is shown of the
forest. -/
theorem shown_lines_eq (h : s.Shows f) :
    (s.walk.filter fun e => s.isShown choices e.1).map Line.of = (f.shown choices).lines 1 := by
  rw [h.shown_walk_eq, walkForest_shownNodes]

/-- The document order has every paragraph once. -/
theorem documentOrder_perm (h : s.Shows f) : s.documentOrder.Perm s.paragraphs := by
  rw [← Multiset.coe_eq_coe, h.rows_eq]
  unfold documentOrder walk
  rw [h.forest_eq]
  exact map_fst_walkForest_nodes s.documentId none 1 f 1

end Shows

end Store

end Bylaws
