import Bylaws.Proofs.Store.Moves
import Bylaws.Proofs.Store.Transaction

/-!
# The siblings of a node

What an edit reads before it writes: the row of a node, the siblings after it and the sibling
before it, all given by the place of the node. The moves that an edit makes from these are then
made as a whole, unless a database has no room for the positions (`Holds.makeMoves_cases`).
-/

namespace Bylaws.Store

open Forest

variable {s t : Store}

/-! ## Room -/

/-- Whether positions stay within what the medium holds when some paragraphs are added. -/
def HasRoom (s : Store) (n : Nat) : Prop :=
  s.medium = .database → s.paragraphs.length + n ≤ 2147483647

theorem hasRoom_opened {n : Nat} : s.opened.HasRoom n ↔ s.HasRoom n := by
  unfold HasRoom
  rw [opened_eq]
  rfl

theorem width_le_length_ids (g : Forest) : g.width ≤ g.ids.length := by
  induction g with
  | nil => exact Nat.le_refl 0
  | cons id fields below rest _ ih =>
    rw [ids_cons, List.length_cons, List.length_append]
    show rest.width + 1 ≤ _
    omega

theorem length_ids_plug (C : Hole) (g : Forest) :
    (C.plug g).ids.length = C.ids.length + g.ids.length := by
  rw [(Hole.ids_plug_perm C g).length_eq, List.length_append]

/-- The last position of a scope is held, so a database bounds the number of siblings. -/
theorem Shows.width_le {C : Hole} {g : Forest} (h : s.Shows (C.plug g))
    (hm : s.medium = .database) : g.width ≤ 2147483647 := by
  rcases eq_nil_or_append_tree g with rfl | ⟨g', id, fields, below, rfl⟩
  · exact Nat.zero_le _
  · have hp : row s.documentId C.parent (1 + g'.width) id fields ∈ s.paragraphs := by
      rw [h.mem_iff, Hole.rows_plug, Forest.rows, heads_append]
      simp [heads, tree]
    have hfits := fits_iff.1 (canHold_iff.1 (h.held _ hp) hm).1
    rw [width_append, width_tree]
    change _ ≤ 1 + (g'.width : Int) ∧ 1 + (g'.width : Int) ≤ _ at hfits
    omega

/-! ## A node and its siblings -/

section Node

variable {C : Hole} {l b r : Forest} {id : Int} {fields : Fields}

theorem Shows.row_mem (h : s.Shows (C.plug (l ++ cons id fields b r))) :
    row s.documentId C.parent (1 + l.width) id fields ∈ s.paragraphs := by
  rw [h.mem_iff, Hole.rows_plug, Forest.rows, heads_append]
  simp [heads]

theorem Shows.find?_plug (h : s.Shows (C.plug (l ++ cons id fields b r))) :
    s.find? id = some (row s.documentId C.parent (1 + l.width) id fields) :=
  h.find?_eq h.row_mem

theorem Shows.get_plug (h : s.Shows (C.plug (l ++ cons id fields b r))) :
    s.get id = .ok (row s.documentId C.parent (1 + l.width) id fields) :=
  get_ok h.find?_plug

/-- What is below a node is in a place of its own. -/
theorem Shows.under (h : s.Shows (C.plug (l ++ cons id fields b r))) :
    s.Shows ((Hole.under l id fields r C).plug b) := h

end Node

/-- The topmost nodes from a position on. -/
theorem filter_heads (doc : String) (parent : Option Int) (k : Int) (l g : Forest) :
    ((l ++ g).heads doc parent k).filter (fun q => k + l.width ≤ q.position) =
      g.heads doc parent (k + l.width) := by
  rw [heads_append, List.filter_append]
  have h₁ : (l.heads doc parent k).filter (fun q => k + l.width ≤ q.position) = [] := by
    apply List.filter_eq_nil_iff.2
    intro q hq
    have := (mem_heads hq).2.2.2
    rw [decide_eq_true_eq]
    omega
  have h₂ : (g.heads doc parent (k + l.width)).filter (fun q => k + l.width ≤ q.position) =
      g.heads doc parent (k + l.width) := by
    apply List.filter_eq_self.2
    intro q hq
    rw [decide_eq_true_eq]
    exact (mem_heads hq).2.2.1
  rw [h₁, h₂, List.nil_append]

/-- The topmost nodes after one of them. -/
theorem filter_heads_after (doc : String) (parent : Option Int) (k : Int) (l : Forest) (id : Int)
    (fields : Fields) (b r : Forest) :
    ((l ++ cons id fields b r).heads doc parent k).filter (fun q => k + l.width < q.position) =
      r.heads doc parent (k + l.width + 1) := by
  have hw : k + ((l ++ tree id fields b).width : Int) = k + l.width + 1 := by
    rw [width_append, width_tree]
    omega
  have h := filter_heads doc parent k (l ++ tree id fields b) r
  rw [hw, append_assoc, tree_append] at h
  exact h

/-- The topmost node at a position. -/
theorem find?_heads (doc : String) (parent : Option Int) (k : Int) (l : Forest) (id : Int)
    (fields : Fields) (b r : Forest) :
    ((l ++ cons id fields b r).heads doc parent k).find? (fun q => q.position == k + l.width) =
      some (row doc parent (k + l.width) id fields) := by
  rw [heads_append, List.find?_append]
  have h : (l.heads doc parent k).find? (fun q => q.position == k + l.width) = none := by
    refine List.find?_eq_none.2 fun q hq => ?_
    have := (mem_heads hq).2.2.2
    rw [beq_iff_eq]
    omega
  rw [h, Option.none_or]
  exact List.find?_cons_of_pos (beq_self_eq_true (k + (l.width : Int)))

/-- A node as an edit reads it: its row, and the siblings after it. -/
theorem Shows.exists_get {C : Hole} {l b r : Forest} {id : Int} {fields : Fields}
    (h : s.Shows (C.plug (l ++ cons id fields b r))) :
    ∃ p, s.get id = .ok p ∧ p.parent = C.parent ∧ p.position = 1 + l.width ∧
      (s.children p.parent).filter (fun q => p.position < q.position) =
        r.heads s.documentId C.parent (1 + l.width + 1) := by
  refine ⟨_, h.get_plug, rfl, rfl, ?_⟩
  rw [row_parent, h.children_eq]
  exact filter_heads_after s.documentId C.parent 1 l id fields b r

/-! ## Making the moves of an edit -/

/-- Moves to positions of which no more are needed than there are paragraphs, and a few, are made
as a whole, unless a database is out of room and the open transaction is spoilt. -/
theorem Holds.makeMoves_cases {moves : List Move} {A A' : List Paragraph}
    {B : Multiset Paragraph} {n : Nat} (h : s.Holds (↑A + B))
    (hids : (moves.map (·.id)).Perm (A.map (·.id)))
    (hmap : A.map (relocated s.documentId moves) = A')
    (hparent : ∀ m ∈ moves, ∀ id, m.parent = some id → s.contains id = true)
    (hpos : ∀ m ∈ moves, 0 ≤ m.position ∧ m.position ≤ s.paragraphs.length + n)
    (hsmall : s.medium = .database → ∀ m ∈ moves, m.position ≤ 2 ^ 34) :
    (makeMoves moves s = (.ok (), s.relocate moves) ∧ (s.relocate moves).Holds (↑A' + B)) ∨
      (¬ s.HasRoom n ∧ (¬ ∀ m ∈ moves, s.canHold m.position none = true) ∧
        ∃ rows, makeMoves moves s =
          (.error .outOfStoredRange, { s with rows, spoilt := s.inTransaction })) := by
  have hready := h.ready hids hparent
  by_cases hf : ∀ m ∈ moves, s.canHold m.position none = true
  · exact .inl ⟨makeMoves_ok hready hf, h.relocate hids hmap hf⟩
  · right
    refine ⟨fun hroom => hf fun m hm => canHold_iff.2 ?_, hf, ?_⟩
    · intro hd
      have hr := hroom hd
      obtain ⟨h₁, h₂⟩ := hpos m hm
      exact ⟨fits_iff.2 (by omega), fun n hn => nomatch hn⟩
    · refine makeMoves_outOfRange hready ?_ hf
      intro hd m hm
      have h₁ := (hpos m hm).1
      exact isTransferable_of_le (by omega) (hsmall hd m hm)

end Bylaws.Store
