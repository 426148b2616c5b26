import Bylaws.Proofs.Forest.Hole
import Bylaws.Proofs.Sorting

/-!
# Stores that show a forest

`Store.Shows` ties the rows of a store to an ordered forest: as a whole the paragraphs of the
document are the nodes of the forest, each with the parent and the position that its place
gives it. All that a store answers about structure can then be read off the forest: the
children of a paragraph (`Shows.children_eq`) and the document order (`Shows.lines_eq`).
-/

namespace Bylaws.Store

open Forest

/-- The document order: each paragraph with its depth. -/
def lines (s : Store) : List Line := s.walk.map Line.of

/-- The paragraphs of the document in any order. Ids are distinct and have been issued, and the
medium holds all numbers. -/
structure Holds (s : Store) (M : Multiset Paragraph) : Prop where
  rows_eq : (s.paragraphs : Multiset Paragraph) = M
  nodup : (M.map (·.id)).Nodup
  issued : ∀ p ∈ s.rows, p.id < s.nextId
  held : ∀ p ∈ s.paragraphs, s.canHold p.position p.heading = true

/-- The paragraphs of the document are the nodes of a forest, each in its place. -/
structure Shows (s : Store) (f : Forest) : Prop where
  rows_eq : (s.paragraphs : Multiset Paragraph) = f.rows s.documentId none
  nodup : f.ids.Nodup
  issued : ∀ p ∈ s.rows, p.id < s.nextId
  held : ∀ p ∈ s.paragraphs, s.canHold p.position p.heading = true

theorem mem_rows_of_mem {s : Store} {p : Paragraph} (h : p ∈ s.paragraphs) : p ∈ s.rows :=
  List.mem_of_mem_filter h

theorem children_perm (s : Store) (parent : Option Int) :
    (s.children parent).Perm (s.paragraphs.filter (·.parent == parent)) := sortBy_perm _ _

theorem childCount_eq_length (s : Store) (parent : Option Int) :
    s.childCount parent = (s.children parent).length := (s.children_perm parent).length_eq.symm

theorem mem_children {s : Store} {parent : Option Int} {p : Paragraph} :
    p ∈ s.children parent ↔ p ∈ s.paragraphs ∧ p.parent = parent := by
  rw [(s.children_perm parent).mem_iff, List.mem_filter, beq_iff_eq]

theorem contains_iff_exists {s : Store} {id : Int} :
    s.contains id = true ↔ ∃ p ∈ s.paragraphs, p.id = id := by
  unfold contains find?
  rw [List.find?_isSome]
  simp

theorem Holds.contains_iff {s : Store} {M : Multiset Paragraph} (h : s.Holds M) {id : Int} :
    s.contains id = true ↔ id ∈ M.map (·.id) := by
  rw [contains_iff_exists, ← h.rows_eq, Multiset.map_coe, Multiset.mem_coe, List.mem_map]

theorem Holds.shows {s : Store} {f : Forest} (h : s.Holds (f.rows s.documentId none)) :
    s.Shows f where
  rows_eq := h.rows_eq
  nodup := Multiset.coe_nodup.1 (map_id_rows s.documentId none f ▸ h.nodup)
  issued := h.issued
  held := h.held

theorem Holds.shows_of {s : Store} {f : Forest} {M : Multiset Paragraph} (h : s.Holds M)
    (he : M = f.rows s.documentId none) : s.Shows f :=
  Holds.shows (he ▸ h)

namespace Shows

variable {s : Store} {f : Forest}

theorem holds (h : s.Shows f) : s.Holds (f.rows s.documentId none) where
  rows_eq := h.rows_eq
  nodup := by
    rw [map_id_rows]
    exact Multiset.coe_nodup.2 h.nodup
  issued := h.issued
  held := h.held

theorem mem_iff (h : s.Shows f) {p : Paragraph} :
    p ∈ s.paragraphs ↔ p ∈ f.rows s.documentId none := by
  rw [← h.rows_eq, Multiset.mem_coe]

/-- The paragraphs have the ids and the fields of the lines. -/
theorem content_perm (h : s.Shows f) (depth : Nat) :
    (s.paragraphs.map Paragraph.content).Perm ((f.lines depth).map Line.content) := by
  have hc := congrArg (Multiset.map Paragraph.content) h.rows_eq
  rw [map_content_rows s.documentId none f depth, Multiset.map_coe] at hc
  exact Multiset.coe_eq_coe.1 hc

theorem ids_perm (h : s.Shows f) : (s.paragraphs.map (·.id)).Perm f.ids := by
  have := congrArg (Multiset.map (·.id)) h.rows_eq
  rw [map_id_rows, Multiset.map_coe] at this
  exact Multiset.coe_eq_coe.1 this

theorem length_eq (h : s.Shows f) : s.paragraphs.length = f.ids.length := by
  rw [← h.ids_perm.length_eq, List.length_map]

theorem eq_of_id_eq (h : s.Shows f) {p q : Paragraph} (hp : p ∈ s.paragraphs)
    (hq : q ∈ s.paragraphs) (he : p.id = q.id) : p = q :=
  List.inj_on_of_nodup_map (h.ids_perm.nodup_iff.2 h.nodup) hp hq he

theorem find?_eq (h : s.Shows f) {p : Paragraph} (hp : p ∈ s.paragraphs) :
    s.find? p.id = some p := by
  unfold find?
  cases hf : s.paragraphs.find? (·.id == p.id) with
  | none => exact absurd (List.find?_eq_none.1 hf p hp) (by simp)
  | some q =>
    have hq : q.id = p.id := by simpa using List.find?_some hf
    rw [h.eq_of_id_eq (List.mem_of_find?_eq_some hf) hp hq]

theorem mem_ids_iff (h : s.Shows f) {id : Int} :
    id ∈ f.ids ↔ ∃ p ∈ s.paragraphs, p.id = id := by
  rw [← h.ids_perm.mem_iff, List.mem_map]

theorem contains_iff (h : s.Shows f) {id : Int} : s.contains id = true ↔ id ∈ f.ids := by
  rw [h.mem_ids_iff, contains_iff_exists]

theorem lt_nextId (h : s.Shows f) {id : Int} (hid : id ∈ f.ids) : id < s.nextId := by
  obtain ⟨p, hp, rfl⟩ := h.mem_ids_iff.1 hid
  exact h.issued p (mem_rows_of_mem hp)

/-! ## Places -/

/-- Every paragraph has a place in the forest. -/
theorem exists_place (h : s.Shows f) {p : Paragraph} (hp : p ∈ s.paragraphs) :
    ∃ (C : Hole) (l b r : Forest), f = C.plug (l ++ cons p.id p.fields b r) ∧
      p = row s.documentId C.parent (l.width + 1) p.id p.fields :=
  Hole.exists_plug_of_mem_rows (h.mem_iff.1 hp)

theorem exists_node (h : s.Shows f) {id : Int} (hid : s.contains id = true) :
    ∃ (C : Hole) (l b r : Forest) (fields : Fields), f = C.plug (l ++ cons id fields b r) := by
  obtain ⟨p, hp, rfl⟩ := contains_iff_exists.1 hid
  obtain ⟨C, l, b, r, hf, -⟩ := h.exists_place hp
  exact ⟨C, l, b, r, p.fields, hf⟩

/-- The top level, and what is below any paragraph, is a place in the forest. -/
theorem exists_scope (h : s.Shows f) {parent : Option Int}
    (hp : ∀ id, parent = some id → s.contains id = true) :
    ∃ (C : Hole) (g : Forest), f = C.plug g ∧ C.parent = parent := by
  cases parent with
  | none => exact ⟨.top, f, rfl, rfl⟩
  | some id =>
    obtain ⟨p, hm, rfl⟩ := h.mem_ids_iff.1 (h.contains_iff.1 (hp id rfl))
    obtain ⟨C, l, b, r, hf, -⟩ := h.exists_place hm
    exact ⟨.under l p.id p.fields r C, b, hf, rfl⟩

theorem contains_of_parent {C : Hole} {g : Forest} (h : s.Shows (C.plug g)) {id : Int}
    (hid : C.parent = some id) : s.contains id = true :=
  h.contains_iff.2 ((Hole.ids_plug_perm C g).mem_iff.2
    (List.mem_append_left _ (Hole.mem_ids_of_parent hid)))

/-! ## Children -/

theorem filter_parent_perm {C : Hole} {g : Forest} (h : s.Shows (C.plug g)) :
    (s.paragraphs.filter (·.parent == C.parent)).Perm (g.heads s.documentId C.parent 1) := by
  rw [← Multiset.coe_eq_coe, ← Hole.filter_parent_rows h.nodup, ← h.rows_eq,
    Multiset.filter_coe]
  refine congrArg (fun l : List Paragraph => (l : Multiset Paragraph)) (List.filter_congr ?_)
  intro p _
  rw [Bool.eq_iff_iff, beq_iff_eq, decide_eq_true_iff]

theorem mem_heads_of_parent {C : Hole} {g : Forest} (h : s.Shows (C.plug g)) {p : Paragraph}
    (hp : p ∈ s.paragraphs) (hparent : p.parent = C.parent) :
    p ∈ g.heads s.documentId C.parent 1 :=
  h.filter_parent_perm.mem_iff.1 (List.mem_filter.2 ⟨hp, beq_iff_eq.2 hparent⟩)

theorem pairwise_heads (doc : String) (parent : Option Int) (k : Int) (g : Forest) :
    (g.heads doc parent k).Pairwise fun p q => p.position < q.position := by
  induction g generalizing k with
  | nil => exact .nil
  | cons id fields below rest _ ih =>
    refine List.pairwise_cons.2 ⟨?_, ih (k + 1)⟩
    intro q hq
    have := (mem_heads hq).2.2.1
    show k < q.position
    omega

/-- The children of a paragraph are the topmost nodes in its place, in their order. -/
theorem children_eq {C : Hole} {g : Forest} (h : s.Shows (C.plug g)) :
    s.children C.parent = g.heads s.documentId C.parent 1 :=
  Paragraph.inOrder_eq_of_perm h.filter_parent_perm (pairwise_heads _ _ _ g)

theorem length_heads (doc : String) (parent : Option Int) (k : Int) (g : Forest) :
    (g.heads doc parent k).length = g.width := by
  induction g generalizing k with
  | nil => rfl
  | cons id fields below rest _ ih => exact congrArg (· + 1) (ih (k + 1))

theorem childCount_eq {C : Hole} {g : Forest} (h : s.Shows (C.plug g)) :
    s.childCount C.parent = g.width := by
  unfold childCount
  rw [h.filter_parent_perm.length_eq, length_heads]

/-! ## Document order -/

/-- The branches below a place, as deep as the forest in it goes. -/
theorem branches_eq {C : Hole} {g : Forest} (h : s.Shows (C.plug g)) {fuel : Nat}
    (hf : g.ids.length ≤ fuel) :
    s.branches fuel C.parent = g.nodes s.documentId C.parent 1 := by
  induction fuel generalizing C g with
  | zero =>
    cases g with
    | nil => rfl
    | cons id fields below rest => simp at hf
  | succ fuel ih =>
    -- The children one after the other; each is followed by trees of the same place.
    have key : ∀ (g' l : Forest), g = l ++ g' →
        ((g'.heads s.documentId C.parent (l.width + 1)).map fun p =>
          Node.mk p (s.branches fuel (some p.id))) =
          g'.nodes s.documentId C.parent (l.width + 1) := by
      intro g'
      induction g' with
      | nil => intros; rfl
      | cons id fields below rest _ ih' =>
        intro l hl
        have hlen : below.ids.length ≤ fuel := by
          rw [hl, ids_append, ids_cons, List.length_append, List.length_cons,
            List.length_append] at hf
          omega
        have hplug : s.Shows ((Hole.under l id fields rest C).plug below) := by
          rw [hl] at h
          exact h
        have hb := ih hplug hlen
        have hr := ih' (l ++ tree id fields below) (by rw [append_assoc, tree_append, hl])
        rw [width_append, width_tree] at hr
        simp only [heads, nodes, List.map_cons]
        exact congrArg₂ _ (congrArg _ hb) (by simpa using hr)
    show (s.children C.parent).map _ = _
    rw [h.children_eq]
    exact key g nil rfl

/-- The nodes below a place are the forest in it: there are no more of them than rows. -/
theorem below_eq {C : Hole} {g : Forest} (h : s.Shows (C.plug g)) :
    s.below C.parent = g.nodes s.documentId C.parent 1 := by
  have hrows : s.paragraphs.length ≤ s.rows.length := List.length_filter_le ..
  have hids := (Hole.ids_plug_perm C g).length_eq
  rw [← h.length_eq, List.length_append] at hids
  exact h.branches_eq (by omega)

theorem forest_eq (h : s.Shows f) : s.forest = f.nodes s.documentId none 1 :=
  below_eq (C := .top) h

/-- The document order is that of the forest. -/
theorem lines_eq (h : s.Shows f) : s.lines = f.lines 1 := by
  unfold lines walk
  rw [h.forest_eq]
  exact walkForest_nodes ..

end Shows

end Bylaws.Store
