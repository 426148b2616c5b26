import Bylaws.Proofs.Store.Action

/-!
# Lists of moves

A list of moves is made as a whole (`makeMoves_ok`) or ends at a position that a database cannot
hold (`makeMoves_outOfRange`). When it is made, a paragraph that it names has the place that it
gives, and the paragraphs that it does not name stay as they are (`Shows.map_relocated`).
-/

namespace Bylaws.Store

open Forest

variable {s t : Store}

/-- A row after some moves. -/
def relocated (doc : String) (moves : List Move) (p : Paragraph) : Paragraph :=
  moves.foldl (fun p m => moveRow doc m.id m.position m.parent p) p

/-- The store after some moves. -/
def relocate (s : Store) (moves : List Move) : Store :=
  { s with rows := s.rows.map (relocated s.documentId moves) }

@[simp] theorem documentId_relocate (s : Store) (moves : List Move) :
    (s.relocate moves).documentId = s.documentId := rfl

@[simp] theorem nextId_relocate (s : Store) (moves : List Move) :
    (s.relocate moves).nextId = s.nextId := rfl

theorem moveRow_id (doc : String) (id position : Int) (parent : Option Int) (p : Paragraph) :
    (moveRow doc id position parent p).id = p.id := by
  unfold moveRow
  split <;> rfl

theorem moveRow_documentId (doc : String) (id position : Int) (parent : Option Int)
    (p : Paragraph) : (moveRow doc id position parent p).documentId = p.documentId := by
  unfold moveRow
  split <;> rfl

theorem moveRow_heading (doc : String) (id position : Int) (parent : Option Int)
    (p : Paragraph) : (moveRow doc id position parent p).heading = p.heading := by
  unfold moveRow
  split <;> rfl

theorem moveRow_position (doc : String) (id position : Int) (parent : Option Int)
    (p : Paragraph) :
    (moveRow doc id position parent p).position = p.position ∨
      (moveRow doc id position parent p).position = position := by
  unfold moveRow
  split
  · exact .inr rfl
  · exact .inl rfl

theorem moveRow_of_ne {doc : String} {id position : Int} {parent : Option Int} {p : Paragraph}
    (h : p.id ≠ id) : moveRow doc id position parent p = p := by
  unfold moveRow
  rw [if_neg (by simp [h])]

theorem moveRow_self {p : Paragraph} (position : Int) (parent : Option Int) :
    moveRow p.documentId p.id position parent p = { p with position, parent } := by
  unfold moveRow
  rw [if_pos (by simp)]

theorem relocated_cons (doc : String) (m : Move) (moves : List Move) (p : Paragraph) :
    relocated doc (m :: moves) p =
      relocated doc moves (moveRow doc m.id m.position m.parent p) := rfl

theorem relocated_id (doc : String) (moves : List Move) (p : Paragraph) :
    (relocated doc moves p).id = p.id := by
  induction moves generalizing p with
  | nil => rfl
  | cons m moves ih => rw [relocated_cons, ih, moveRow_id]

theorem relocated_documentId (doc : String) (moves : List Move) (p : Paragraph) :
    (relocated doc moves p).documentId = p.documentId := by
  induction moves generalizing p with
  | nil => rfl
  | cons m moves ih => rw [relocated_cons, ih, moveRow_documentId]

theorem relocated_heading (doc : String) (moves : List Move) (p : Paragraph) :
    (relocated doc moves p).heading = p.heading := by
  induction moves generalizing p with
  | nil => rfl
  | cons m moves ih => rw [relocated_cons, ih, moveRow_heading]

theorem relocated_position (doc : String) (moves : List Move) (p : Paragraph) :
    (relocated doc moves p).position = p.position ∨
      ∃ m ∈ moves, (relocated doc moves p).position = m.position := by
  induction moves generalizing p with
  | nil => exact .inl rfl
  | cons m moves ih =>
    rw [relocated_cons]
    rcases ih (moveRow doc m.id m.position m.parent p) with h | ⟨n, hn, h⟩
    · rw [h]
      rcases moveRow_position doc m.id m.position m.parent p with h' | h'
      · exact .inl h'
      · exact .inr ⟨m, List.mem_cons_self, h'⟩
    · exact .inr ⟨n, List.mem_cons_of_mem _ hn, h⟩

theorem relocated_of_notMem {doc : String} {moves : List Move} {p : Paragraph}
    (h : p.id ∉ moves.map (·.id)) : relocated doc moves p = p := by
  induction moves with
  | nil => rfl
  | cons m moves ih =>
    rw [List.map_cons, List.mem_cons, not_or] at h
    rw [relocated_cons, moveRow_of_ne h.1, ih h.2]

/-- When no id is named twice, the one move that names a paragraph puts it into its place. -/
theorem relocated_of_mem {doc : String} {moves : List Move} (hn : (moves.map (·.id)).Nodup)
    {p : Paragraph} (hp : p.documentId = doc) {m : Move} (hm : m ∈ moves) (hid : m.id = p.id) :
    relocated doc moves p = { p with position := m.position, parent := m.parent } := by
  induction moves with
  | nil => exact absurd hm List.not_mem_nil
  | cons n moves ih =>
    rw [List.map_cons, List.nodup_cons] at hn
    rw [relocated_cons]
    rcases List.mem_cons.1 hm with rfl | hm
    · rw [hid, ← hp, moveRow_self]
      exact relocated_of_notMem (by rw [← hid]; exact hn.1)
    · have hne : p.id ≠ n.id := fun he =>
        hn.1 (he ▸ hid ▸ List.mem_map_of_mem hm)
      rw [moveRow_of_ne hne]
      exact ih hn.2 hm

theorem paragraphs_relocate (s : Store) (moves : List Move) :
    (s.relocate moves).paragraphs = s.paragraphs.map (relocated s.documentId moves) :=
  paragraphs_map (relocated_documentId _ _)

/-- The paragraphs that moves name, and the parents that they give, are there. -/
def Ready (s : Store) (moves : List Move) : Prop :=
  ∀ m ∈ moves, s.contains m.id = true ∧ ∀ id, m.parent = some id → s.contains id = true

theorem contains_move {id' : Int} (id position : Int) (parent : Option Int) :
    { s with rows := s.rows.map (moveRow s.documentId id position parent) }.contains id' =
      s.contains id' := by
  rw [Bool.eq_iff_iff, contains_iff_exists, contains_iff_exists,
    paragraphs_map (moveRow_documentId _ _ _ _)]
  simp [moveRow_id]

theorem Ready.tail {m : Move} {moves : List Move} (h : s.Ready (m :: moves)) :
    { s with rows := s.rows.map (moveRow s.documentId m.id m.position m.parent) }.Ready moves := by
  intro n hn
  rw [contains_move]
  refine ⟨(h n (List.mem_cons_of_mem _ hn)).1, ?_⟩
  intro id hid
  rw [contains_move]
  exact (h n (List.mem_cons_of_mem _ hn)).2 id hid

theorem makeMoves_ok {moves : List Move} (h : s.Ready moves)
    (hf : ∀ m ∈ moves, s.canHold m.position none = true) :
    makeMoves moves s = (.ok (), s.relocate moves) := by
  induction moves generalizing s with
  | nil =>
    unfold relocate
    rw [show relocated s.documentId [] = id from rfl, List.map_id]
    rfl
  | cons m moves ih =>
    obtain ⟨hc, hp⟩ := h m List.mem_cons_self
    show (move m.id m.position m.parent >>= fun _ => makeMoves moves) s = _
    rw [bind_ok (move_ok hc hp (hf m List.mem_cons_self)), ih h.tail
      (fun n hn => hf n (List.mem_cons_of_mem _ hn))]
    unfold relocate
    rw [List.map_map]
    rfl

theorem move_eq_ok {id : Int} {position : Int} {parent : Option Int}
    (h : move id position parent s = (.ok (), t)) :
    t = { s with rows := s.rows.map (moveRow s.documentId id position parent) } := by
  unfold move at h
  rw [bind_ok get_run] at h
  obtain ⟨_, _, h₁, h⟩ := bind_eq_ok h
  obtain ⟨-, rfl⟩ := lift_eq_ok h₁
  obtain ⟨_, _, h₂, h⟩ := bind_eq_ok h
  obtain ⟨-, rfl⟩ := lift_eq_ok h₂
  obtain ⟨_, _, h₃, h⟩ := bind_eq_ok h
  obtain ⟨rfl, -⟩ := checkRange_eq_ok h₃
  rw [set_run] at h
  cases h
  rfl

/-- Moves that are made leave just what they say. -/
theorem makeMoves_eq_ok {moves : List Move} (h : makeMoves moves s = (.ok (), t)) :
    t = s.relocate moves := by
  induction moves generalizing s with
  | nil =>
    cases h
    unfold relocate
    rw [show relocated t.documentId [] = id from rfl, List.map_id]
  | cons m moves ih =>
    obtain ⟨_, u, h₁, h₂⟩ := bind_eq_ok h
    obtain rfl := move_eq_ok h₁
    rw [ih h₂]
    unfold relocate
    rw [List.map_map]
    rfl

/-- A position that a database cannot hold ends the moves and spoils the open transaction. -/
theorem makeMoves_outOfRange {moves : List Move} (h : s.Ready moves)
    (ht : s.medium = .database → ∀ m ∈ moves, isTransferable m.position = true)
    (hf : ¬ ∀ m ∈ moves, s.canHold m.position none = true) :
    ∃ rows, makeMoves moves s =
      (.error .outOfStoredRange, { s with rows, spoilt := s.inTransaction }) := by
  induction moves generalizing s with
  | nil => exact absurd (fun _ hm => absurd hm List.not_mem_nil) hf
  | cons m moves ih =>
    obtain ⟨hc, hp⟩ := h m List.mem_cons_self
    have hrun : makeMoves (m :: moves) =
        (move m.id m.position m.parent >>= fun _ => makeMoves moves) := rfl
    by_cases hm : s.canHold m.position none = true
    · obtain ⟨rows, hr⟩ := ih h.tail (fun hd n hn => ht hd n (List.mem_cons_of_mem _ hn))
        (fun hall => hf fun n hn => by
          rcases List.mem_cons.1 hn with rfl | hn
          · exact hm
          · exact hall n hn)
      refine ⟨rows, ?_⟩
      rw [hrun, bind_ok (move_ok hc hp hm), hr]
    · refine ⟨s.rows, ?_⟩
      have hct : s.checkTransfer (m.position :: (none : Option Int).toList) = .ok () :=
        checkTransfer_of_database fun hd n hn => by
          rw [List.mem_singleton.1 hn]
          exact ht hd m List.mem_cons_self
      rw [hrun, bind_error (move_error hc hp (checkRange_outOfRange hct hm))]

/-! ## Moving siblings -/

/-- The moves that put the topmost nodes of a forest below `parent`, from a position on. -/
def movesTo (parent : Option Int) (position : Int) : Forest → List Move
  | nil => []
  | cons id _ _ rest => ⟨id, position, parent⟩ :: movesTo parent (position + 1) rest

theorem shifted_heads (offset : Int) (doc : String) (parent : Option Int) (k : Int) (g : Forest) :
    shifted offset (g.heads doc parent k) = movesTo parent (k + offset) g := by
  induction g generalizing k with
  | nil => rfl
  | cons id fields below rest _ ih =>
    have h : k + 1 + offset = k + offset + 1 := by omega
    show _ :: shifted offset (rest.heads doc parent (k + 1)) = _
    rw [ih, h]
    rfl

theorem placed_heads (id : Int) (position : Int) (doc : String) (parent : Option Int) (k : Int)
    (g : Forest) : placed id position (g.heads doc parent k) = movesTo (some id) position g := by
  induction g generalizing k position with
  | nil => rfl
  | cons id' fields below rest _ ih =>
    show _ :: placed id (position + 1) (rest.heads doc parent (k + 1)) = _
    rw [ih]
    rfl

theorem map_id_movesTo (parent parent' : Option Int) (position k : Int) (doc : String)
    (g : Forest) :
    (movesTo parent position g).map (·.id) = (g.heads doc parent' k).map (·.id) := by
  induction g generalizing k position with
  | nil => rfl
  | cons id fields below rest _ ih => exact congrArg (id :: ·) (ih (position + 1) (k + 1))

theorem mem_movesTo {parent : Option Int} {position : Int} {g : Forest} {m : Move}
    (h : m ∈ movesTo parent position g) :
    m.parent = parent ∧ position ≤ m.position ∧ m.position < position + g.width := by
  induction g generalizing position with
  | nil => exact absurd h List.not_mem_nil
  | cons id fields below rest _ ih =>
    show _ ∧ _ ∧ m.position < position + ((rest.width + 1 : Nat) : Int)
    rcases List.mem_cons.1 h with rfl | h
    · refine ⟨rfl, Int.le_refl position, ?_⟩
      show position < _
      omega
    · obtain ⟨h₁, h₂, h₃⟩ := ih h
      exact ⟨h₁, by omega, by omega⟩

/-- Siblings that are moved together keep their order. -/
theorem map_relocated_heads (doc : String) {moves : List Move}
    (hn : (moves.map (·.id)).Nodup) {parent : Option Int} {position : Int} {g : Forest}
    (hs : movesTo parent position g ⊆ moves) (parent' : Option Int) (k : Int) :
    (g.heads doc parent' k).map (relocated doc moves) = g.heads doc parent position := by
  induction g generalizing k position with
  | nil => rfl
  | cons id fields below rest _ ih =>
    have h₁ : relocated doc moves (row doc parent' k id fields) =
        row doc parent position id fields :=
      relocated_of_mem hn (p := row doc parent' k id fields) rfl (hs List.mem_cons_self) rfl
    have h₂ := ih (fun m hm => hs (List.mem_cons_of_mem _ hm)) (k + 1)
    show relocated doc moves (row doc parent' k id fields) ::
      (rest.heads doc parent' (k + 1)).map (relocated doc moves) = _
    rw [h₁, h₂]
    rfl

/-! ## Moves among the paragraphs of a store -/

namespace Holds

variable {moves : List Move} {A : List Paragraph} {B : Multiset Paragraph}

theorem nodup_moves (h : s.Holds (↑A + B)) (hids : (moves.map (·.id)).Perm (A.map (·.id))) :
    (moves.map (·.id)).Nodup := by
  have hn := h.nodup
  rw [Multiset.map_add, Multiset.map_coe] at hn
  exact hids.nodup_iff.2
    (Multiset.coe_nodup.1 (Multiset.nodup_of_le (Multiset.le_add_right _ _) hn))

/-- Moves that name each of some paragraphs once change those and no other. -/
theorem map_relocated (h : s.Holds (↑A + B))
    (hids : (moves.map (·.id)).Perm (A.map (·.id))) :
    ((A : Multiset Paragraph) + B).map (relocated s.documentId moves) =
      ↑(A.map (relocated s.documentId moves)) + B := by
  have hB : B.map (relocated s.documentId moves) = B.map id := by
    refine Multiset.map_congr rfl fun p hp => relocated_of_notMem fun hm => ?_
    have hn := h.nodup
    rw [Multiset.map_add, Multiset.map_coe] at hn
    exact Multiset.disjoint_left.1 (Multiset.disjoint_of_nodup_add hn)
      (Multiset.mem_coe.2 (hids.mem_iff.1 hm)) (Multiset.mem_map_of_mem _ hp)
  rw [Multiset.map_add, Multiset.map_coe, hB, Multiset.map_id]

/-- The moved paragraphs together with those that stay. -/
theorem relocate {A' : List Paragraph} (h : s.Holds (↑A + B))
    (hids : (moves.map (·.id)).Perm (A.map (·.id)))
    (hmap : A.map (relocated s.documentId moves) = A')
    (hf : ∀ m ∈ moves, s.canHold m.position none = true) :
    (s.relocate moves).Holds (↑A' + B) := by
  have hrows : ((s.relocate moves).paragraphs : Multiset Paragraph) = ↑A' + B := by
    rw [paragraphs_relocate, ← Multiset.map_coe, h.rows_eq, h.map_relocated hids, hmap]
  refine ⟨hrows, ?_, ?_, ?_⟩
  · have hids' : (↑A' + B).map (·.id) = (↑A + B).map (·.id) := by
      rw [← hrows, ← h.rows_eq, paragraphs_relocate, Multiset.map_coe, Multiset.map_coe,
        List.map_map]
      exact congrArg _ (List.map_congr_left fun p _ => relocated_id _ _ p)
    rw [hids']
    exact h.nodup
  · intro p hp
    obtain ⟨q, hq, rfl⟩ := List.mem_map.1 hp
    rw [relocated_id]
    exact h.issued q hq
  · intro p hp
    rw [paragraphs_relocate] at hp
    obtain ⟨q, hq, rfl⟩ := List.mem_map.1 hp
    have hheld := canHold_iff.1 (h.held q hq)
    show s.canHold _ _ = true
    rw [relocated_heading]
    refine canHold_iff.2 fun hd => ⟨?_, (hheld hd).2⟩
    rcases relocated_position s.documentId moves q with he | ⟨m, hm, he⟩
    · rw [he]
      exact (hheld hd).1
    · rw [he]
      exact (canHold_iff.1 (hf m hm) hd).1

theorem ready (h : s.Holds (↑A + B)) (hids : (moves.map (·.id)).Perm (A.map (·.id)))
    (hp : ∀ m ∈ moves, ∀ id, m.parent = some id → s.contains id = true) : s.Ready moves := by
  intro m hm
  refine ⟨h.contains_iff.2 ?_, hp m hm⟩
  rw [Multiset.map_add, Multiset.map_coe]
  exact Multiset.mem_add.2 (.inl (hids.mem_iff.1 (List.mem_map_of_mem hm)))

end Holds

end Bylaws.Store
