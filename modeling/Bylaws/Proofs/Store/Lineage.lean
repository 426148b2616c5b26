import Bylaws.Store.Lineage
import Bylaws.Proofs.Forest.Siblings

/-!
# Climbing to the top level

`Rooted` says by the parents alone that the way up from a paragraph ends at the top level. In a
store that shows a forest every paragraph is rooted (`Shows.rooted`), and its lineage is the
nodes on the way down to it (`Shows.lineage_eq`), as many as it is deep.
-/

namespace Bylaws

open Forest

/-- The paragraphs on the way down to a hole. -/
def Hole.ancestors (doc : String) : Hole → List Paragraph
  | top => []
  | under left id fields _ outer =>
    outer.ancestors doc ++ [row doc outer.parent (1 + left.width) id fields]

theorem Hole.length_ancestors (doc : String) (C : Hole) :
    (C.ancestors doc).length + 1 = C.depth := by
  induction C with
  | top => rfl
  | under left id fields right outer ih =>
    show (outer.ancestors doc ++ [_]).length + 1 = outer.depth + 1
    rw [List.length_append, List.length_singleton, ih]

/-- Every node on the way down is one of those around the hole. -/
theorem Hole.depth_le_length_ids (C : Hole) : C.depth ≤ C.ids.length + 1 := by
  induction C with
  | top => exact Nat.le_refl 1
  | under left id fields right outer ih =>
    have h := (Hole.ids_under_perm left id fields right outer).length_eq
    rw [List.length_cons, List.length_append, List.length_append] at h
    show outer.depth + 1 ≤ _
    omega

/-- The way down begins at the top level. -/
theorem Hole.ancestors_top (doc : String) (C : Hole) (p : Paragraph) (hp : p.parent = C.parent) :
    ∃ top rest, C.ancestors doc ++ [p] = top :: rest ∧ top.parent = none := by
  induction C generalizing p with
  | top => exact ⟨p, [], rfl, hp⟩
  | under left id fields right outer ih =>
    obtain ⟨top, rest, he, ht⟩ := ih (row doc outer.parent (1 + left.width) id fields) rfl
    refine ⟨top, rest ++ [p], ?_, ht⟩
    show outer.ancestors doc ++ [_] ++ [p] = _
    rw [he, List.cons_append]

namespace Store

variable {s : Store}

/-- Climbing from a paragraph ends at the top level. -/
inductive Rooted (ps : List Paragraph) : Paragraph → Prop where
  | top {p : Paragraph} : p ∈ ps → p.parent = none → Rooted ps p
  | step {p q : Paragraph} : Rooted ps q → p ∈ ps → p.parent = some q.id → Rooted ps p

theorem Shows.rooted_of_parent {C : Hole} {g : Forest} (h : s.Shows (C.plug g)) {p : Paragraph}
    (hp : p ∈ s.paragraphs) (hparent : p.parent = C.parent) : Rooted s.paragraphs p := by
  induction C generalizing g p with
  | top => exact .top hp hparent
  | under left id fields right outer ih =>
    have ho : s.Shows (outer.plug (left ++ cons id fields g right)) := h
    exact .step (ih ho ho.row_mem rfl) hp hparent

theorem Shows.climb_eq {C : Hole} {g : Forest} (h : s.Shows (C.plug g)) {p : Paragraph}
    (hparent : p.parent = C.parent) {fuel : Nat} (hf : C.depth ≤ fuel) :
    s.climb fuel p = .ok (C.ancestors s.documentId ++ [p]) := by
  induction C generalizing g p fuel with
  | top =>
    have hf' : 1 ≤ fuel := hf
    obtain ⟨fuel, rfl⟩ := Nat.exists_eq_add_of_le' hf'
    unfold climb
    rw [hparent]
    rfl
  | under left id fields right outer ih =>
    have ho : s.Shows (outer.plug (left ++ cons id fields g right)) := h
    obtain ⟨fuel, rfl⟩ := Nat.exists_eq_add_of_le' ((Nat.le_add_left 1 _).trans hf)
    have hf' : outer.depth ≤ fuel := Nat.le_of_succ_le_succ hf
    unfold climb
    rw [hparent]
    show (do return (← s.climb fuel (← s.get id)) ++ [p]) = _
    rw [ho.get_plug]
    show (do return (← s.climb fuel (row s.documentId outer.parent (1 + left.width) id fields)) ++
      [p]) = _
    rw [ih ho rfl hf']
    rfl

variable {f : Forest}

theorem Shows.rooted (h : s.Shows f) {p : Paragraph} (hp : p ∈ s.paragraphs) :
    Rooted s.paragraphs p := by
  obtain ⟨C, l, b, r, rfl, hrow⟩ := h.exists_place hp
  exact h.rooted_of_parent hp (by rw [hrow, row_parent])

/-- The lineage of a paragraph is the way down to its place. -/
theorem Shows.lineage_eq {C : Hole} {g : Forest} (h : s.Shows (C.plug g)) {p : Paragraph}
    (hparent : p.parent = C.parent) : s.lineage p = .ok (C.ancestors s.documentId ++ [p]) := by
  refine h.climb_eq hparent ?_
  have hlen := h.length_eq
  have hrows : s.paragraphs.length ≤ s.rows.length := List.length_filter_le ..
  have hdepth := C.depth_le_length_ids
  rw [length_ids_plug] at hlen
  omega

theorem depth_eq_ok_iff {p : Paragraph} {depth : Nat} :
    s.depth p = .ok depth ↔ ∃ ps, s.lineage p = .ok ps ∧ depth = ps.length := by
  unfold Store.depth
  cases s.lineage p with
  | error e => simp [Except.map]
  | ok ps => simp [Except.map, eq_comm]

/-- A paragraph is as deep as its place. -/
theorem Shows.depth_eq {C : Hole} {g : Forest} (h : s.Shows (C.plug g)) {p : Paragraph}
    (hparent : p.parent = C.parent) : s.depth p = .ok C.depth := by
  refine depth_eq_ok_iff.2 ⟨_, h.lineage_eq hparent, ?_⟩
  rw [List.length_append, List.length_singleton, C.length_ancestors]

end Store

end Bylaws
