import Bylaws.Proofs.CommandLine.Faults
import Bylaws.Proofs.NormalForm

/-!
# Levels

How deep the parts of what a run reads are nested: a document no deeper than the outline that it is
made of (`Store.depth_le_of_import`), and what a numbering is spelled with no deeper than the
numbering (`Numbering.Spells.levels_le`).
-/

namespace Bylaws

namespace Value

/-- A list is nested deeper than its elements. -/
theorem levelsIn_lt_of_nested? {v : Value} {items : List Value} (h : v.nested? = some items) :
    items = [] ∨ levelsIn items < v.levels := by
  induction v using nested?.induct with
  | case1 items' =>
    obtain rfl := Option.some.inj h
    exact .inr (Nat.lt_succ_self _)
  | case2 items' =>
    obtain rfl := Option.some.inj h
    exact .inr (Nat.lt_succ_self _)
  | case3 label v ih => exact ih h
  | case4 label => exact .inl (Option.some.inj h).symm
  | case5 v => simp [nested?] at h

end Value

/-- No element of an outline is deeper than its lists are nested. -/
theorem depth_le_of_mem_leaves {e : Value × Nat} :
    ∀ (items : List Value) {depth : Nat}, e ∈ leavesIn depth items →
      e.2 ≤ depth + Value.levelsIn items
  | [], _, he => absurd he List.not_mem_nil
  | v :: rest, depth, he => by
    rw [Value.levelsIn]
    rcases List.mem_append.1 he with he | he
    · cases hv : v.nested? with
      | none =>
        obtain ⟨w, hw, -⟩ := Value.exists_leaf hv depth
        rw [hw, List.mem_singleton] at he
        rw [he]
        exact Nat.le_add_right _ _
      | some inner =>
        rw [Value.leaves_of_nested? hv] at he
        rcases Value.levelsIn_lt_of_nested? hv with rfl | hlt
        · exact absurd he List.not_mem_nil
        · have hinner := depth_le_of_mem_leaves inner he
          omega
    · have hrest := depth_le_of_mem_leaves rest he
      omega
termination_by items => Value.weightIn items
decreasing_by
  · have := Value.weightIn_nested? hv
    rw [Value.weightIn_cons]
    omega
  · have := v.weight_pos
    rw [Value.weightIn_cons]
    omega

/-- A document that is made of an outline is nested no deeper than the outline. -/
theorem Store.depth_le_of_import {d : String} {t : Store} {items : List Value} {ids : List Int}
    (h : importOutline (.list items) none { documentId := d } = (.ok ids, t)) :
    ∀ e ∈ t.shape, e.2 ≤ 1 + Value.levelsIn items := by
  obtain ⟨g, hg, hgives⟩ := (fresh_empty .memory d).exists_gives h
  have hdepths : (leavesIn 1 items).map (·.2) = (g.lines 1).map (·.depth) := by
    rw [← List.forall₂_eq_eq_eq, List.forall₂_map_left_iff, List.forall₂_map_right_iff]
    exact hgives.imp fun _ _ hl => hl.2
  rw [hg.shape_eq]
  intro e he
  obtain ⟨l, hl, rfl⟩ := List.mem_map.1 he
  have hmem : l.depth ∈ (leavesIn 1 items).map (·.2) := hdepths ▸ List.mem_map_of_mem hl
  obtain ⟨v, hv, hdepth⟩ := List.mem_map.1 hmem
  exact hdepth ▸ depth_le_of_mem_leaves items hv

/-- What a numbering without loops is spelled with is nested no deeper than its entries. -/
theorem Numbering.Spells.levels_le {entries : List (Value × Value)} {v : Value}
    (h : Numbering.Spells entries v) (hentries : areLooplessEntries entries = true) :
    v.levels ≤ Value.levelsInEntries entries := by
  cases h with
  | separator hv => exact Value.levels_le_of_entry? hv
  | @member levels _ es members e hlevels hes he hmembers hv =>
    have hlevels_le := Value.levels_le_of_entry? hlevels
    have hloopless := Value.isLoopless_of_entry? hentries hlevels
    rw [Value.opened_of_isLoopless hloopless] at hes
    subst hes
    have he_le := Value.levels_le_of_mem_entries he
    have hmember := areLooplessEntries_iff.1 hloopless e he
    rw [Value.opened_of_isLoopless hmember] at hmembers
    rw [hmembers] at he_le
    have hv_le : v.levels ≤ Value.levelsInEntries members :=
      hv.elim Value.levels_le_of_entry? Value.levels_le_of_entry?
    rw [Value.levels] at hlevels_le he_le
    omega

end Bylaws
