import Bylaws.Paragraph

/-!
# Sorted lists

Sorting by insertion with a total and transitive order gives a list in that order, so a list
that is in order already, with no two different elements that precede each other, is what any
permutation of it is sorted into. Siblings are such a list.
-/

namespace Bylaws

section Order

variable {α : Type} {le : α → α → Bool} (total : ∀ x y, le x y = true ∨ le y x = true)
  (trans : ∀ x y z, le x y = true → le y z = true → le x z = true)

include total trans

theorem pairwise_insertBy (x : α) {xs : List α} (h : xs.Pairwise (le · · = true)) :
    (insertBy le x xs).Pairwise (le · · = true) := by
  induction xs with
  | nil => exact List.pairwise_singleton _ x
  | cons y ys ih =>
    obtain ⟨hy, hys⟩ := List.pairwise_cons.1 h
    unfold insertBy
    split
    next hxy =>
      refine List.pairwise_cons.2 ⟨?_, h⟩
      intro z hz
      rcases List.mem_cons.1 hz with rfl | hz
      · exact hxy
      · exact trans x y z hxy (hy z hz)
    next hxy =>
      refine List.pairwise_cons.2 ⟨?_, ih hys⟩
      intro z hz
      rcases List.mem_cons.1 ((insertBy_perm le x ys).mem_iff.1 hz) with rfl | hz
      · exact (total y z).resolve_right hxy
      · exact hy z hz

theorem pairwise_sortBy (xs : List α) : (sortBy le xs).Pairwise (le · · = true) := by
  induction xs with
  | nil => exact .nil
  | cons x xs ih => exact pairwise_insertBy total trans x ih

/-- A list in order is what each permutation of it is sorted into. -/
theorem sortBy_eq_of_perm {xs ys : List α} (hp : xs.Perm ys) (h : ys.Pairwise (le · · = true))
    (antisymm : ∀ x y, x ∈ ys → y ∈ ys → le x y = true → le y x = true → x = y) :
    sortBy le xs = ys := by
  have hs := (sortBy_perm le xs).trans hp
  exact List.Perm.eq_of_pairwise
    (fun x y hx hy => antisymm x y (hs.mem_iff.1 hx) hy) (pairwise_sortBy total trans xs) h hs

end Order

namespace Paragraph

theorem precedes_iff {p q : Paragraph} :
    p.precedes q = true ↔
      p.position < q.position ∨ p.position = q.position ∧ p.id ≤ q.id := by
  simp [precedes]

theorem precedes_total (p q : Paragraph) : p.precedes q = true ∨ q.precedes p = true := by
  rw [precedes_iff, precedes_iff]
  omega

theorem precedes_trans (p q r : Paragraph) (h₁ : p.precedes q = true)
    (h₂ : q.precedes r = true) : p.precedes r = true := by
  rw [precedes_iff] at *
  omega

/-- Siblings with increasing positions are in order however they are stored. -/
theorem inOrder_eq_of_perm {ps qs : List Paragraph} (hp : ps.Perm qs)
    (h : qs.Pairwise fun p q => p.position < q.position) : inOrder ps = qs := by
  have inj : ∀ p ∈ qs, ∀ q ∈ qs, p.position = q.position → p = q := by
    refine fun p hp q hq => List.Pairwise.forall_of_forall_of_flip
      (R := fun p q : Paragraph => p.position = q.position → p = q)
      (fun _ _ _ => rfl) (h.imp ?_) (h.imp ?_) hp hq
    · intro a b hlt he
      omega
    · intro a b hlt he
      omega
  refine sortBy_eq_of_perm precedes_total precedes_trans hp
    (h.imp fun hlt => precedes_iff.2 (.inl hlt)) ?_
  intro p q hmp hmq h₁ h₂
  rw [precedes_iff] at h₁ h₂
  exact inj p hmp q hmq (by omega)

end Paragraph

end Bylaws
