import Bylaws.Proofs.Forest.Check
import Bylaws.Proofs.Store.Lineage

/-!
# Well-formed stores

What the rows of a document always satisfy, said of the rows alone: parents are there and lead
up to the top level, siblings are numbered from one without gap or repeat, and ids have been
issued. Every store that shows a forest is well formed (`Shows.wellFormed`), and the check of
positions finds no problem in it (`Shows.problems_eq_nil`).
-/

namespace Bylaws.Store

open Forest

/-- The parents of a document lead up to the top level, its siblings are numbered one, two, three
and so on, and its ids are distinct and issued. -/
structure WellFormed (s : Store) : Prop where
  parent_stored : ∀ p ∈ s.paragraphs, ∀ id, p.parent = some id → ∃ q ∈ s.paragraphs, q.id = id
  rooted : ∀ p ∈ s.paragraphs, Rooted s.paragraphs p
  lineage : ∀ p ∈ s.paragraphs, ∃ top rest, s.lineage p = .ok (top :: rest) ∧ top.parent = none
  positions : ∀ parent, ((s.paragraphs.filter (·.parent == parent)).map (·.position)).Perm
    (expectedPositions (s.childCount parent))
  distinct : (s.paragraphs.map (·.id)).Nodup
  issued : ∀ p ∈ s.paragraphs, p.id < s.nextId

theorem map_position_heads (doc : String) (parent : Option Int) (k : Int) (g : Forest) :
    (g.heads doc parent k).map (·.position) = (List.range g.width).map fun i : Nat => k + i := by
  induction g generalizing k with
  | nil => rfl
  | cons id fields below rest _ ih =>
    have hk : ∀ i : Nat, k + 1 + (i : Int) = k + ((i + 1 : Nat) : Int) := fun i => by omega
    show k :: (rest.heads doc parent (k + 1)).map (·.position) =
      (List.range (rest.width + 1)).map _
    rw [ih, List.range_succ_eq_map, List.map_cons, List.map_map]
    simp only [hk, Function.comp_def, Int.natCast_zero, Int.add_zero]

namespace Shows

variable {s : Store} {f : Forest}

theorem parent_stored (h : s.Shows f) {p : Paragraph} (hp : p ∈ s.paragraphs) {id : Int}
    (hid : p.parent = some id) : ∃ q ∈ s.paragraphs, q.id = id := by
  obtain ⟨C, l, b, r, rfl, hrow⟩ := h.exists_place hp
  rw [hrow, row_parent] at hid
  exact contains_iff_exists.1 (h.contains_of_parent hid)

/-- The positions in every scope are those that its size makes one expect. -/
theorem positions_perm (h : s.Shows f) (parent : Option Int) :
    ((s.paragraphs.filter (·.parent == parent)).map (·.position)).Perm
      (expectedPositions (s.childCount parent)) := by
  by_cases hp : ∀ id, parent = some id → s.contains id = true
  · obtain ⟨C, g, rfl, rfl⟩ := h.exists_scope hp
    rw [h.childCount_eq, expectedPositions_eq,
      ← map_position_heads s.documentId C.parent 1 g]
    exact h.filter_parent_perm.map _
  · have hnil : s.paragraphs.filter (·.parent == parent) = [] := by
      refine List.filter_eq_nil_iff.2 fun p hm he => hp fun id hid => ?_
      rw [beq_iff_eq] at he
      exact contains_iff_exists.2 (h.parent_stored hm (he.trans hid))
    unfold childCount
    rw [hnil]
    exact .refl _

theorem wellFormed (h : s.Shows f) : s.WellFormed where
  parent_stored := fun _ hp _ hid => h.parent_stored hp hid
  rooted := fun _ hp => h.rooted hp
  lineage := by
    intro p hp
    obtain ⟨C, l, b, r, rfl, hrow⟩ := h.exists_place hp
    have hparent : p.parent = C.parent := by rw [hrow, row_parent]
    obtain ⟨top, rest, he, ht⟩ := C.ancestors_top s.documentId p hparent
    exact ⟨top, rest, by rw [h.lineage_eq hparent, he], ht⟩
  positions := h.positions_perm
  distinct := h.ids_perm.nodup_iff.2 h.nodup
  issued := fun p hp => h.issued p (mem_rows_of_mem hp)

end Shows

/-- The check finds no problem in a well-formed store. -/
theorem WellFormed.problems_eq_nil {s : Store} (h : s.WellFormed) : s.problems = [] :=
  problems_eq_nil_iff.2 fun p hp =>
    ⟨contiguous_of_perm (h.positions p.parent), fun id hid => h.parent_stored p hp id hid⟩

end Bylaws.Store
