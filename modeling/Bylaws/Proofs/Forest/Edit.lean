import Bylaws.Proofs.Forest.Siblings
import Bylaws.Proofs.Store.Descent

/-!
# Edits as changes of the forest

Each edit of a store that shows a forest is a small change of the forest at one place. What the
edit does to positions and parents is worked out here once; all that is said about edits
elsewhere follows from the forest that is shown afterwards.
-/

namespace Bylaws.Store

open Forest

variable {s t : Store}

/-! ## Adding a paragraph -/

/-- Whether the medium can hold the heading level of some fields. -/
def HoldsHeading (s : Store) (fields : Fields) : Prop :=
  s.medium = .database → ∀ n, fields.heading = some n → fits n = true

/-- Whether the medium can hold one more paragraph. -/
def Admits (s : Store) (fields : Fields) : Prop := s.HasRoom 1 ∧ s.HoldsHeading fields

theorem holdsHeading_opened {fields : Fields} :
    s.opened.HoldsHeading fields ↔ s.HoldsHeading fields := by
  unfold HoldsHeading
  rw [medium_opened]

theorem admits_opened {fields : Fields} : s.opened.Admits fields ↔ s.Admits fields := by
  unfold Admits
  rw [hasRoom_opened, holdsHeading_opened]

/-- A paragraph is created, or its position or its heading cannot be held: then nothing is
written, or the open transaction is spoilt. -/
theorem Holds.create_cases {M : Multiset Paragraph} (h : s.Holds M) {parent : Option Int}
    (position : Int) (fields : Fields)
    (hparent : ∀ id, parent = some id → s.contains id = true) :
    (create parent position fields s = (.ok s.nextId, s.added parent position fields) ∧
      (s.added parent position fields).Holds
        (M + {row s.documentId parent position s.nextId fields})) ∨
    ¬ s.canHold position fields.heading = true ∧
      (s.checkTransfer (position :: fields.heading.toList) ≠ .ok () ∧
          create parent position fields s = (.error .notTransferable, s) ∨
        create parent position fields s =
          (.error .outOfStoredRange, { s with spoilt := s.inTransaction })) := by
  by_cases hc : s.canHold position fields.heading = true
  · exact .inl ⟨create_ok hparent hc, h.added hc⟩
  · refine .inr ⟨hc, ?_⟩
    rcases checkTransfer_cases (s := s) (position :: fields.heading.toList) with ht | ht
    · exact .inr (create_error hparent (checkRange_outOfRange ht hc))
    · refine .inl ⟨?_, create_error hparent (checkRange_notTransferable ht)⟩
      rw [ht]
      exact nofun

theorem canHold_of_admits {position : Int} {fields : Fields} (h : s.Admits fields)
    (h₁ : 0 ≤ position) (h₂ : position ≤ s.paragraphs.length + 1) :
    s.canHold position fields.heading = true := by
  refine canHold_iff.2 fun hd => ⟨?_, h.2 hd⟩
  have hr := h.1 hd
  rw [fits_iff]
  omega

theorem database_of_not_canHold {position : Int} {heading : Option Int}
    (h : ¬ s.canHold position heading = true) : s.medium = .database := by
  by_contra hm
  exact h (canHold_iff.2 fun hd => absurd hd hm)

theorem database_of_not_hasRoom {n : Nat} (h : ¬ s.HasRoom n) : s.medium = .database := by
  by_contra hm
  exact h fun hd => absurd hd hm

theorem width_le_length {C : Hole} {g : Forest} (h : s.Shows (C.plug g)) :
    g.width ≤ s.paragraphs.length := by
  rw [h.length_eq, length_ids_plug]
  exact (width_le_length_ids g).trans (Nat.le_add_left _ _)

theorem rows_added (doc : String) (C : Hole) (g : Forest) (id : Int) (fields : Fields) :
    (C.plug (g ++ tree id fields nil)).rows doc none =
      (C.plug g).rows doc none + {row doc C.parent (1 + g.width) id fields} := by
  rw [Hole.rows_plug, Hole.rows_plug, Forest.rows, Forest.rows, heads_append, deeper_append,
    deeper_tree, rows_nil, heads_tree, ← Multiset.coe_add, Multiset.coe_singleton]
  abel

/-- A paragraph created at the end of a place is the last node there. -/
theorem create_outcome {C : Hole} {g : Forest} (hs : s.spoilt = false)
    (hi : s.medium = .database → s.inTransaction = true) (h : s.Shows (C.plug g))
    (fields : Fields) :
    Outcome s (fun id f => id = s.nextId ∧ f = C.plug (g ++ tree s.nextId fields nil))
      (fun f => f = C.plug g ∧ ¬ s.Admits fields) (¬ s.Admits fields)
      (create C.parent (1 + g.width) fields s) := by
  rcases h.holds.create_cases (1 + g.width) fields
    fun id hid => h.contains_of_parent hid with ⟨hrun, hM⟩ | ⟨hc, hrun⟩
  · rw [hrun]
    rw [← rows_added] at hM
    exact .done (follows_added _ _ _) hs hM.shows ⟨rfl, rfl⟩
  · have hno : ¬ s.Admits fields := fun ha =>
      hc (canHold_of_admits ha (by omega) (by have := width_le_length h; omega))
    have hd := database_of_not_canHold hc
    rcases hrun with ⟨-, hrun⟩ | hrun
    · rw [hrun]
      exact .failed (.refl s) hs h ⟨rfl, hno⟩
    · rw [hrun]
      exact .spoilt ⟨rfl, rfl, rfl, Int.le_refl _⟩ (hi hd) hd (hi hd) hno

theorem Shows.nextPosition_eq {C : Hole} {g : Forest} (h : s.Shows (C.plug g)) :
    s.nextPosition C.parent = .ok (1 + g.width) := by
  unfold nextPosition
  rw [checkName_ok fun id hid => h.contains_of_parent hid, h.childCount_eq, Int.add_comm]
  rfl

theorem append_outcome {C : Hole} {g : Forest} {fields : Fields} (hs : s.spoilt = false)
    (h : s.Shows (C.plug g)) :
    Outcome s (fun id f => id = s.nextId ∧ f = C.plug (g ++ tree s.nextId fields nil))
      (fun f => f = C.plug g ∧ ¬ s.Admits fields) (¬ s.Admits fields)
      (append fields C.parent s) := by
  have ho := h.opened
  unfold append
  refine .transaction h (fun _ hf => ⟨rfl, hf.2⟩) (fun hf => ⟨rfl, hf⟩) ?_
  rw [bind_ok get_run]
  rw [bind_ok (lift_ok ho.nextPosition_eq)]
  have hc := create_outcome ((spoilt_opened s).trans hs)
    (opened_inTransaction s) ho fields
  rw [nextId_opened, admits_opened] at hc
  exact hc

/-! ## Inserting between siblings -/

theorem contains_relocate (moves : List Move) (id : Int) :
    (s.relocate moves).contains id = s.contains id := by
  rw [Bool.eq_iff_iff, contains_iff_exists, contains_iff_exists, paragraphs_relocate]
  simp [relocated_id]

theorem length_relocate (moves : List Move) :
    (s.relocate moves).paragraphs.length = s.paragraphs.length := by
  rw [paragraphs_relocate, List.length_map]

theorem follows_relocate (s : Store) (moves : List Move) : s.Follows (s.relocate moves) :=
  ⟨rfl, rfl, rfl, Int.le_refl _⟩

theorem rows_split (doc : String) (C : Hole) (l g : Forest) :
    (C.plug (l ++ g)).rows doc none =
      ↑(g.heads doc C.parent (1 + l.width)) +
        (C.frame doc + ↑(l.heads doc C.parent 1) + l.deeper doc + g.deeper doc) := by
  rw [Hole.rows_plug, Forest.rows, heads_append, deeper_append, ← Multiset.coe_add]
  abel

theorem rows_around (doc : String) (C : Hole) (l : Forest) (id : Int) (fields : Fields)
    (b r : Forest) :
    (C.plug (l ++ cons id fields b r)).rows doc none =
      {row doc C.parent (1 + l.width) id fields} + b.rows doc (some id) +
        ↑(r.heads doc C.parent (1 + l.width + 1)) +
        (C.frame doc + ↑(l.heads doc C.parent 1) + l.deeper doc + r.deeper doc) := by
  rw [rows_split, heads, deeper, ← Multiset.cons_coe, ← Multiset.singleton_add, Forest.rows]
  abel

/-- Once the siblings from a place on have moved down by one, a paragraph is created there. -/
theorem makeMoves_create_outcome {C : Hole} {l g : Forest} {fields : Fields}
    (hs : s.spoilt = false) (hi : s.medium = .database → s.inTransaction = true)
    (hh : s.HoldsHeading fields) (h : s.Shows (C.plug (l ++ g))) :
    Outcome s (fun id f => id = s.nextId ∧ f = C.plug (l ++ cons s.nextId fields nil g))
      (fun _ => False) (¬ s.HasRoom 1)
      ((makeMoves (movesTo C.parent (1 + l.width + 1) g).reverse >>= fun _ =>
        create C.parent (1 + l.width) fields) s) := by
  have hM := h.holds
  rw [rows_split] at hM
  have hw := h.width_le
  have hlen := width_le_length h
  rw [width_append] at hw hlen
  have hids : ((movesTo C.parent (1 + l.width + 1) g).reverse.map (·.id)).Perm
      ((g.heads s.documentId C.parent (1 + l.width)).map (·.id)) := by
    rw [List.map_reverse,
      map_id_movesTo C.parent C.parent _ (1 + l.width) s.documentId]
    exact List.reverse_perm _
  have hmap := map_relocated_heads s.documentId (hM.nodup_moves hids) (g := g)
    (fun m hm => List.mem_reverse.2 hm) C.parent (1 + l.width)
  have hpos : ∀ m ∈ (movesTo C.parent (1 + l.width + 1) g).reverse,
      m.parent = C.parent ∧ 0 ≤ m.position ∧ m.position ≤ 1 + l.width + g.width := by
    intro m hm
    obtain ⟨h₁, h₂, h₃⟩ := mem_movesTo (List.mem_reverse.1 hm)
    exact ⟨h₁, by omega, by omega⟩
  rcases hM.makeMoves_cases (n := 1) hids hmap
      (fun m hm id hid => h.contains_of_parent ((hpos m hm).1 ▸ hid))
      (fun m hm => ⟨(hpos m hm).2.1, by have := (hpos m hm).2.2; omega⟩)
      (fun hd m hm => by have := (hpos m hm).2.2; have := hw hd; omega)
    with ⟨hrun, hgap⟩ | ⟨hroom, -, rows, hrun⟩
  · rw [bind_ok hrun]
    have hfol := follows_relocate s (movesTo C.parent (1 + l.width + 1) g).reverse
    have hparent : ∀ id, C.parent = some id →
        (s.relocate (movesTo C.parent (1 + l.width + 1) g).reverse).contains id = true := by
      intro id hid
      rw [contains_relocate]
      exact h.contains_of_parent hid
    rcases hgap.create_cases (1 + l.width) fields hparent
      with ⟨hrun', hM'⟩ | ⟨hc, hrun'⟩
    · rw [hrun']
      refine .done (hfol.trans (follows_added _ _ _)) hs (hM'.shows_of ?_) ⟨rfl, rfl⟩
      simp only [rows_around, rows_nil, documentId_added, documentId_relocate, nextId_relocate]
      abel
    · have hroom : ¬ s.HasRoom 1 := fun hr => hc (canHold_of_admits ⟨by
        unfold HasRoom
        rw [length_relocate]
        exact hr, hh⟩ (by omega) (by rw [length_relocate]; omega))
      have hd := database_of_not_hasRoom hroom
      have ht : (s.relocate (movesTo C.parent (1 + l.width + 1) g).reverse).checkTransfer
          ((1 + l.width : Int) :: fields.heading.toList) = .ok () := by
        apply checkTransfer_of_database
        intro _ n hn
        rcases List.mem_cons.1 hn with rfl | hn
        · have := hw hd
          exact isTransferable_of_le (by omega) (by omega)
        · have := fits_iff.1 (hh hd n (Option.mem_toList.1 hn))
          exact isTransferable_of_le (by omega) (by omega)
      rcases hrun' with ⟨hne, -⟩ | hrun'
      · exact absurd ht hne
      · rw [hrun']
        exact .spoilt ⟨rfl, rfl, rfl, Int.le_refl _⟩ (hi hd) hd (hi hd) hroom
  · rw [bind_error hrun]
    have hd := database_of_not_hasRoom hroom
    exact .spoilt ⟨rfl, rfl, rfl, Int.le_refl _⟩ (hi hd) hd (hi hd) hroom

/-- The moves that make room before the siblings from a place on. -/
theorem shifted_reverse {C : Hole} {l g : Forest} (h : s.Shows (C.plug (l ++ g))) :
    shifted 1 ((s.children C.parent).reverse.filter fun p => 1 + (l.width : Int) ≤ p.position) =
      (movesTo C.parent (1 + l.width + 1) g).reverse := by
  rw [h.children_eq, List.filter_reverse, filter_heads, ← shifted_heads 1 s.documentId C.parent]
  unfold shifted
  rw [List.map_reverse]

section Insert

variable {C : Hole} {l b r : Forest} {id : Int} {fields new : Fields}

theorem insert_before_outcome (hs : s.spoilt = false) (hh : s.HoldsHeading new)
    (h : s.Shows (C.plug (l ++ cons id fields b r))) :
    Outcome s (fun n f => n = s.nextId ∧
        f = C.plug (l ++ cons s.nextId new nil (cons id fields b r)))
      (fun f => f = C.plug (l ++ cons id fields b r) ∧ ¬ s.HasRoom 1) (¬ s.HasRoom 1)
      (insert new (.before id) s) := by
  have ho := h.opened
  unfold insert
  refine .transaction h (fun _ hf => ⟨rfl, hf.2⟩) (fun hf => ⟨rfl, hf⟩) ?_
  rw [bind_ok get_run]
  dsimp only
  rw [bind_ok (lift_ok ho.get_plug), bind_ok (pure_run _)]
  show Outcome s.opened _ _ _ ((makeMoves (shifted 1 ((s.opened.children C.parent).reverse.filter
    fun p => 1 + (l.width : Int) ≤ p.position)) >>= fun _ =>
      create C.parent (1 + l.width) new) s.opened)
  rw [shifted_reverse ho, ← hasRoom_opened, ← nextId_opened]
  exact (makeMoves_create_outcome ((spoilt_opened s).trans hs)
    (opened_inTransaction s) (holdsHeading_opened.2 hh)
    ho).mono (fun _ _ hd => hd) (fun _ hf => hf.elim) fun hr => hr

theorem insert_after_outcome (hs : s.spoilt = false) (hh : s.HoldsHeading new)
    (h : s.Shows (C.plug (l ++ cons id fields b r))) :
    Outcome s (fun n f => n = s.nextId ∧
        f = C.plug (l ++ cons id fields b (cons s.nextId new nil r)))
      (fun f => f = C.plug (l ++ cons id fields b r) ∧ ¬ s.HasRoom 1) (¬ s.HasRoom 1)
      (insert new (.after id) s) := by
  have ho := h.opened
  have hw : 1 + ((l ++ tree id fields b).width : Int) = 1 + l.width + 1 := by
    rw [width_append, width_tree]
    omega
  have ho' : s.opened.Shows (C.plug ((l ++ tree id fields b) ++ r)) := by
    rw [append_assoc]
    exact ho
  have hsh := shifted_reverse ho'
  have hmk := makeMoves_create_outcome ((spoilt_opened s).trans hs)
    (opened_inTransaction s) (holdsHeading_opened.2 hh) ho'
  rw [hw] at hsh hmk
  rw [append_assoc, hasRoom_opened, nextId_opened] at hmk
  unfold insert
  refine .transaction h (fun _ hf => ⟨rfl, hf.2⟩) (fun hf => ⟨rfl, hf⟩) ?_
  rw [bind_ok get_run]
  dsimp only
  rw [bind_ok (lift_ok ho.get_plug), bind_ok (pure_run _)]
  show Outcome s.opened _ _ _ ((makeMoves (shifted 1 ((s.opened.children C.parent).reverse.filter
    fun p => 1 + (l.width : Int) + 1 ≤ p.position)) >>= fun _ =>
      create C.parent (1 + l.width + 1) new) s.opened)
  rw [hsh]
  exact hmk.mono (fun _ _ hd => hd) (fun _ hf => hf.elim) fun hr => hr

/-- A paragraph that has been created after some moves has a heading level that can be held. -/
theorem holdsHeading_of_create {moves : List Move} {parent : Option Int} {position n : Int}
    (h : (makeMoves moves >>= fun _ => create parent position new) s = (.ok n, t)) :
    s.HoldsHeading new := by
  obtain ⟨_, u, hmoves, hcreate⟩ := bind_eq_ok h
  obtain rfl := makeMoves_eq_ok hmoves
  obtain ⟨-, -, hc⟩ := create_eq_ok hcreate
  intro hm
  exact (canHold_iff.1 hc hm).2

theorem insert_eq_ok {neighbour : Neighbour} {n : Int}
    (h : insert new neighbour s = (.ok n, t)) : s.HoldsHeading new := by
  unfold insert at h
  obtain ⟨u, hb, -⟩ := transaction_eq_ok h
  rw [bind_ok get_run] at hb
  rw [← holdsHeading_opened]
  cases neighbour with
  | before id =>
    obtain ⟨r, v, hr, hb⟩ := bind_eq_ok hb
    obtain ⟨-, rfl⟩ := lift_eq_ok hr
    exact holdsHeading_of_create hb
  | after id =>
    obtain ⟨r, v, hr, hb⟩ := bind_eq_ok hb
    obtain ⟨-, rfl⟩ := lift_eq_ok hr
    exact holdsHeading_of_create hb

end Insert

/-! ## Moving a paragraph -/

/-- Whether the medium can hold all paragraphs of a forest. -/
def Accommodates (s : Store) (f : Forest) : Prop :=
  ∀ p ∈ f.rows s.documentId none, s.canHold p.position p.heading = true

/-- There are more paragraphs than positions, and a forest has one that is out of range. -/
def Cramped (s : Store) (f : Forest) : Prop := ¬ s.HasRoom 0 ∧ ¬ s.Accommodates f

theorem cramped_opened {f : Forest} : s.opened.Cramped f ↔ s.Cramped f := by
  unfold Cramped
  rw [hasRoom_opened, opened_eq]
  rfl

/-- A medium that can hold the paragraphs after some moves can hold the positions that they
give. -/
theorem Holds.canHold_of_accommodates {moves : List Move} {A A' : List Paragraph}
    {B : Multiset Paragraph} {f : Forest} (h : s.Holds (↑A + B))
    (hids : (moves.map (·.id)).Perm (A.map (·.id)))
    (hmap : A.map (relocated s.documentId moves) = A')
    (hf : ↑A' + B = f.rows s.documentId none) (hacc : s.Accommodates f) :
    ∀ m ∈ moves, s.canHold m.position none = true := by
  intro m hm
  obtain ⟨p, hp, hid⟩ := List.mem_map.1 (hids.mem_iff.1 (List.mem_map_of_mem hm))
  have hmem : p ∈ s.paragraphs := by
    rw [← Multiset.mem_coe, h.rows_eq]
    exact Multiset.mem_add.2 (.inl hp)
  have hdoc : p.documentId = s.documentId := by simpa using (List.mem_filter.1 hmem).2
  have hrow : relocated s.documentId moves p ∈ f.rows s.documentId none := by
    rw [← hf, ← hmap]
    exact Multiset.mem_add.2 (.inl (List.mem_map_of_mem hp))
  have hheld := hacc _ hrow
  rw [relocated_of_mem (h.nodup_moves hids) hdoc hm hid.symm] at hheld
  exact canHold_iff.2 fun hd => ⟨(canHold_iff.1 hheld hd).1, nofun⟩

/-- Moves that give the paragraphs of another forest change the forest to that one. -/
theorem Holds.makeMoves_outcome {moves : List Move} {A A' : List Paragraph}
    {B : Multiset Paragraph} {f : Forest} (h : s.Holds (↑A + B)) (hs : s.spoilt = false)
    (hi : s.medium = .database → s.inTransaction = true)
    (hids : (moves.map (·.id)).Perm (A.map (·.id)))
    (hmap : A.map (relocated s.documentId moves) = A')
    (hparent : ∀ m ∈ moves, ∀ id, m.parent = some id → s.contains id = true)
    (hpos : ∀ m ∈ moves, 0 ≤ m.position ∧ m.position ≤ s.paragraphs.length)
    (hsmall : s.medium = .database → ∀ m ∈ moves, m.position ≤ 2 ^ 34)
    (hf : ↑A' + B = f.rows s.documentId none) :
    Outcome s (fun moved g => moved = true ∧ g = f) (fun _ => False) (s.Cramped f)
      ((makeMoves moves >>= fun _ => pure true) s) := by
  rcases h.makeMoves_cases (n := 0) hids hmap hparent hpos hsmall with
    ⟨hrun, hM⟩ | ⟨hroom, hfar, rows, hrun⟩
  · rw [bind_ok hrun]
    exact .done (follows_relocate s moves) hs (hM.shows_of hf) ⟨rfl, rfl⟩
  · rw [bind_error hrun]
    have hd := database_of_not_hasRoom hroom
    exact .spoilt ⟨rfl, rfl, rfl, Int.le_refl _⟩ (hi hd) hd (hi hd)
      ⟨hroom, fun hacc => hfar (h.canHold_of_accommodates hids hmap hf hacc)⟩

section Move

variable {C : Hole} {l b r : Forest} {id : Int} {fields : Fields}

/-- A paragraph that is first among its siblings stays where it is. -/
theorem indent_first (hs : s.spoilt = false) (h : s.Shows (C.plug (cons id fields b r))) :
    indent id s = (.ok false, s) := by
  have ho : s.opened.Shows (C.plug (nil ++ cons id fields b r)) := h.opened
  unfold indent
  refine transaction_unchanged hs ?_
  rw [bind_ok get_run, bind_ok (lift_ok ho.get_plug)]
  have hnone : (s.opened.children C.parent).find?
      (fun q => q.position == 1 + (nil.width : Int) - 1) = none := by
    rw [ho.children_eq]
    refine List.find?_eq_none.2 fun q hq => ?_
    have := (mem_heads hq).2.2.1
    rw [beq_iff_eq, width_nil]
    omega
  simp only [row_parent, row_position, hnone]
  rfl

theorem indent_rows (doc : String) (C : Hole) (l : Forest) (q : Int) (qf : Fields) (qb : Forest)
    (id : Int) (fields : Fields) (b r : Forest) :
    ∃ B : Multiset Paragraph,
      (C.plug (l ++ cons q qf qb (cons id fields b r))).rows doc none =
        ↑((tree id fields b).heads doc C.parent (1 + l.width + 1) ++
          r.heads doc C.parent (1 + l.width + 1 + 1)) + B ∧
      (C.plug (l ++ cons q qf (qb ++ tree id fields b) r)).rows doc none =
        ↑((tree id fields b).heads doc (some q) (1 + qb.width) ++
          r.heads doc C.parent (1 + l.width + 1)) + B := by
  refine ⟨C.frame doc + ↑(l.heads doc C.parent 1) + l.deeper doc +
    {row doc C.parent (1 + l.width) q qf} + qb.rows doc (some q) + b.rows doc (some id) +
    r.deeper doc, ?_, ?_⟩
  · rw [rows_around]
    simp only [Forest.rows, heads, deeper, heads_tree, ← Multiset.coe_add, ← Multiset.cons_coe,
      ← Multiset.singleton_add, Multiset.coe_nil]
    abel
  · rw [rows_around]
    simp only [Forest.rows, heads_append, deeper_append, heads_tree, deeper_tree,
      ← Multiset.coe_add, ← Multiset.cons_coe, ← Multiset.singleton_add, Multiset.coe_nil]
    abel

theorem indent_moves_outcome {q : Int} {qf : Fields} {qb : Forest}
    (hs : s.spoilt = false)
    (hi : s.medium = .database → s.inTransaction = true)
    (h : s.Shows (C.plug (l ++ cons q qf qb (cons id fields b r)))) :
    Outcome s
      (fun moved f => moved = true ∧ f = C.plug (l ++ cons q qf (qb ++ tree id fields b) r))
      (fun _ => False) (s.Cramped (C.plug (l ++ cons q qf (qb ++ tree id fields b) r)))
      ((makeMoves (movesTo (some q) (1 + qb.width) (tree id fields b) ++
        movesTo C.parent (1 + l.width + 1) r) >>= fun _ => pure true) s) := by
  have hM := h.holds
  obtain ⟨B, hB, hB'⟩ := indent_rows s.documentId C l q qf qb id fields b r
  rw [hB] at hM
  have hids : ((movesTo (some q) (1 + qb.width) (tree id fields b) ++
      movesTo C.parent (1 + l.width + 1) r).map (·.id)).Perm
      (((tree id fields b).heads s.documentId C.parent (1 + l.width + 1) ++
        r.heads s.documentId C.parent (1 + l.width + 1 + 1)).map (·.id)) := by
    rw [List.map_append, List.map_append, map_id_movesTo, map_id_movesTo]
  have hn := hM.nodup_moves hids
  have hmem : ∀ m ∈ movesTo (some q) (1 + qb.width) (tree id fields b) ++
      movesTo C.parent (1 + l.width + 1) r,
      (m.parent = some q ∧ m.position = 1 + qb.width) ∨
      (m.parent = C.parent ∧ 1 + l.width + 1 ≤ m.position ∧
        m.position < 1 + l.width + 1 + r.width) := by
    intro m hm
    rcases List.mem_append.1 hm with hm | hm
    · rw [List.mem_singleton.1 hm]
      exact .inl ⟨rfl, rfl⟩
    · exact .inr (mem_movesTo hm)
  refine hM.makeMoves_outcome hs hi hids ?_ ?_ ?_ ?_ hB'.symm
  · rw [List.map_append, map_relocated_heads s.documentId hn (List.subset_append_left _ _),
      map_relocated_heads s.documentId hn (List.subset_append_right _ _)]
  · intro m hm x hx
    rcases hmem m hm with ⟨hp, -⟩ | ⟨hp, -, -⟩
    · exact h.under.contains_of_parent (hp.symm.trans hx)
    · exact h.contains_of_parent (hp.symm.trans hx)
  · intro m hm
    have hlen := h.length_eq
    have hqb := width_le_length_ids qb
    have hl := width_le_length_ids l
    have hr := width_le_length_ids r
    simp only [length_ids_plug, ids_append, ids_cons, List.length_append,
      List.length_cons] at hlen
    rcases hmem m hm with ⟨-, hp⟩ | ⟨-, hp, hp'⟩ <;> omega
  · intro hd m hm
    have h₁ := h.width_le hd
    have h₂ := h.under.width_le hd
    rw [width_append] at h₁
    change l.width + (r.width + 1 + 1) ≤ _ at h₁
    rcases hmem m hm with ⟨-, hp⟩ | ⟨-, hp, hp'⟩ <;> omega

/-- A paragraph with a sibling before it becomes the last one below that sibling. -/
theorem indent_outcome {q : Int} {qf : Fields} {qb : Forest} (hs : s.spoilt = false)
    (h : s.Shows (C.plug (l ++ cons q qf qb (cons id fields b r)))) :
    Outcome s
      (fun moved f => moved = true ∧ f = C.plug (l ++ cons q qf (qb ++ tree id fields b) r))
      (fun f => f = C.plug (l ++ cons q qf qb (cons id fields b r)) ∧
        s.Cramped (C.plug (l ++ cons q qf (qb ++ tree id fields b) r)))
      (s.Cramped (C.plug (l ++ cons q qf (qb ++ tree id fields b) r))) (indent id s) := by
  have ho := h.opened
  have hw : 1 + ((l ++ tree q qf qb).width : Int) = 1 + l.width + 1 := by
    rw [width_append, width_tree]
    omega
  have ho' : s.opened.Shows (C.plug ((l ++ tree q qf qb) ++ cons id fields b r)) := by
    rw [append_assoc]
    exact ho
  obtain ⟨p, hget, hparent, hposition, hlater⟩ := ho'.exists_get
  rw [hw] at hposition hlater
  have hfind : (s.opened.children p.parent).find? (fun q => q.position == p.position - 1) =
      some (row s.opened.documentId C.parent (1 + l.width) q qf) := by
    have hk : p.position - 1 = 1 + l.width := by omega
    rw [hk, hparent, ho.children_eq]
    exact find?_heads s.opened.documentId C.parent 1 l q qf qb (cons id fields b r)
  have hcount : s.opened.childCount (some q) = qb.width := ho.under.childCount_eq
  have hback : (1 + (l.width : Int) + 1 + 1 + -1) = 1 + l.width + 1 := by omega
  unfold indent
  refine .transaction h (fun _ hf => ⟨rfl, hf.2⟩) (fun hf => ⟨rfl, hf⟩) ?_
  rw [bind_ok get_run, bind_ok (lift_ok hget)]
  simp only [hfind]
  rw [hlater, shifted_heads, hback, row_id, hcount, Int.add_comm (qb.width : Int),
    ← cramped_opened]
  exact (indent_moves_outcome ((spoilt_opened s).trans hs)
    (opened_inTransaction s) ho).mono (fun _ _ hd => hd)
    (fun _ hf => hf.elim) fun hr => hr

/-- A paragraph at the top level stays where it is. -/
theorem outdent_top (hs : s.spoilt = false) (h : s.Shows (l ++ cons id fields b r)) :
    outdent id s = (.ok false, s) := by
  have ho : s.opened.Shows (Hole.top.plug (l ++ cons id fields b r)) := h.opened
  unfold outdent
  refine transaction_unchanged hs ?_
  rw [bind_ok get_run, bind_ok (lift_ok ho.get_plug)]
  rfl

theorem outdent_rows (doc : String) (C : Hole) (l : Forest) (p : Int) (pf : Fields) (pb : Forest)
    (id : Int) (fields : Fields) (b a r : Forest) :
    ∃ B : Multiset Paragraph,
      (C.plug (l ++ cons p pf (pb ++ cons id fields b a) r)).rows doc none =
        ↑(r.heads doc C.parent (1 + l.width + 1) ++
          (tree id fields b).heads doc (some p) (1 + pb.width) ++
          a.heads doc (some p) (1 + pb.width + 1)) + B ∧
      (C.plug (l ++ cons p pf pb (cons id fields (b ++ a) r))).rows doc none =
        ↑(r.heads doc C.parent (1 + l.width + 1 + 1) ++
          (tree id fields b).heads doc C.parent (1 + l.width + 1) ++
          a.heads doc (some id) (1 + b.width)) + B := by
  refine ⟨C.frame doc + ↑(l.heads doc C.parent 1) + l.deeper doc +
    {row doc C.parent (1 + l.width) p pf} + pb.rows doc (some p) + b.rows doc (some id) +
    a.deeper doc + r.deeper doc, ?_, ?_⟩
  · rw [rows_around]
    simp only [Forest.rows, heads_append, deeper_append, heads, deeper, heads_tree,
      ← Multiset.coe_add, ← Multiset.cons_coe, ← Multiset.singleton_add, Multiset.coe_nil]
    abel
  · rw [rows_around]
    simp only [Forest.rows, heads_append, deeper_append, heads, deeper, heads_tree,
      ← Multiset.coe_add, ← Multiset.cons_coe, ← Multiset.singleton_add, Multiset.coe_nil]
    abel

theorem outdent_moves_outcome {p : Int} {pf : Fields} {pb a : Forest}
    (hs : s.spoilt = false)
    (hi : s.medium = .database → s.inTransaction = true)
    (h : s.Shows (C.plug (l ++ cons p pf (pb ++ cons id fields b a) r))) :
    Outcome s
      (fun moved f => moved = true ∧ f = C.plug (l ++ cons p pf pb (cons id fields (b ++ a) r)))
      (fun _ => False) (s.Cramped (C.plug (l ++ cons p pf pb (cons id fields (b ++ a) r))))
      ((makeMoves (movesTo C.parent (1 + l.width + 1 + 1) r ++
        movesTo C.parent (1 + l.width + 1) (tree id fields b) ++
        movesTo (some id) (1 + b.width) a) >>= fun _ => pure true) s) := by
  have hu : s.Shows ((Hole.under l p pf r C).plug (pb ++ cons id fields b a)) := h
  have hM := h.holds
  obtain ⟨B, hB, hB'⟩ := outdent_rows s.documentId C l p pf pb id fields b a r
  rw [hB] at hM
  have hids : ((movesTo C.parent (1 + l.width + 1 + 1) r ++
      movesTo C.parent (1 + l.width + 1) (tree id fields b) ++
      movesTo (some id) (1 + b.width) a).map (·.id)).Perm
      ((r.heads s.documentId C.parent (1 + l.width + 1) ++
        (tree id fields b).heads s.documentId (some p) (1 + pb.width) ++
        a.heads s.documentId (some p) (1 + pb.width + 1)).map (·.id)) := by
    simp only [List.map_append]
    rw [map_id_movesTo, map_id_movesTo, map_id_movesTo]
  have hn := hM.nodup_moves hids
  have hmem : ∀ m ∈ movesTo C.parent (1 + l.width + 1 + 1) r ++
      movesTo C.parent (1 + l.width + 1) (tree id fields b) ++ movesTo (some id) (1 + b.width) a,
      (m.parent = C.parent ∧ 1 + l.width + 1 ≤ m.position ∧
        m.position ≤ 1 + l.width + 1 + r.width) ∨
      (m.parent = some id ∧ 1 + b.width ≤ m.position ∧ m.position < 1 + b.width + a.width) := by
    intro m hm
    rcases List.mem_append.1 hm with hm | hm
    · rcases List.mem_append.1 hm with hm | hm
      · obtain ⟨h₁, h₂, h₃⟩ := mem_movesTo hm
        exact .inl ⟨h₁, by omega, by omega⟩
      · rw [List.mem_singleton.1 hm]
        refine .inl ⟨rfl, Int.le_refl _, ?_⟩
        show 1 + (l.width : Int) + 1 ≤ _
        omega
    · exact .inr (mem_movesTo hm)
  refine hM.makeMoves_outcome hs hi hids ?_ ?_ ?_ ?_ hB'.symm
  · rw [List.map_append, List.map_append,
      map_relocated_heads s.documentId hn
        (fun _ hm => List.mem_append_left _ (List.mem_append_left _ hm)),
      map_relocated_heads s.documentId hn
        (fun _ hm => List.mem_append_left _ (List.mem_append_right _ hm)),
      map_relocated_heads s.documentId hn (List.subset_append_right _ _)]
  · intro m hm x hx
    rcases hmem m hm with ⟨hp, -⟩ | ⟨hp, -⟩
    · exact h.contains_of_parent (hp.symm.trans hx)
    · exact hu.under.contains_of_parent (hp.symm.trans hx)
  · intro m hm
    have hlen := h.length_eq
    have hl := width_le_length_ids l
    have hr := width_le_length_ids r
    have hb := width_le_length_ids b
    have ha := width_le_length_ids a
    simp only [length_ids_plug, ids_append, ids_cons, List.length_append,
      List.length_cons] at hlen
    rcases hmem m hm with ⟨-, hp, hp'⟩ | ⟨-, hp, hp'⟩ <;> omega
  · intro hd m hm
    have h₁ := h.width_le hd
    have h₂ := hu.width_le hd
    have h₃ := hu.under.width_le hd
    rw [width_append] at h₁ h₂
    change l.width + (r.width + 1) ≤ _ at h₁
    change pb.width + (a.width + 1) ≤ _ at h₂
    rcases hmem m hm with ⟨-, hp, hp'⟩ | ⟨-, hp, hp'⟩ <;> omega

/-- A paragraph comes right after its parent, and what came after it is put below it. -/
theorem outdent_outcome {p : Int} {pf : Fields} {pb a : Forest} (hs : s.spoilt = false)
    (h : s.Shows (C.plug (l ++ cons p pf (pb ++ cons id fields b a) r))) :
    Outcome s
      (fun moved f => moved = true ∧ f = C.plug (l ++ cons p pf pb (cons id fields (b ++ a) r)))
      (fun f => f = C.plug (l ++ cons p pf (pb ++ cons id fields b a) r) ∧
        s.Cramped (C.plug (l ++ cons p pf pb (cons id fields (b ++ a) r))))
      (s.Cramped (C.plug (l ++ cons p pf pb (cons id fields (b ++ a) r)))) (outdent id s) := by
  have ho := h.opened
  have hu : s.opened.Shows ((Hole.under l p pf r C).plug (pb ++ cons id fields b a)) := ho
  obtain ⟨q, hget, hparent, hposition, hlater⟩ := hu.exists_get
  obtain ⟨u, hget', hparent', hposition', hlater'⟩ := ho.exists_get
  have hcount : s.opened.childCount (some id) = b.width := hu.under.childCount_eq
  unfold outdent
  refine .transaction h (fun _ hf => ⟨rfl, hf.2⟩) (fun hf => ⟨rfl, hf⟩) ?_
  rw [bind_ok get_run, bind_ok (lift_ok hget)]
  rw [hparent] at hlater ⊢
  simp only [Hole.parent] at hlater ⊢
  rw [bind_ok (lift_ok hget'), hlater', hlater, shifted_heads, placed_heads, hcount, hposition',
    hparent', Int.add_comm (b.width : Int), ← cramped_opened]
  exact (outdent_moves_outcome ((spoilt_opened s).trans hs)
    (opened_inTransaction s) ho).mono (fun _ _ hd => hd)
    (fun _ hf => hf.elim) fun hr => hr

end Move

/-! ## Removing a paragraph -/

/-- The store without a paragraph and all below it. -/
def without (s : Store) (id : Int) : Store :=
  { s with
    rows := s.rows.filter fun p =>
      !(p.documentId == s.documentId && (s.subtreeIds id).contains p.id) }

theorem follows_without (s : Store) (id : Int) : s.Follows (s.without id) :=
  ⟨rfl, rfl, rfl, Int.le_refl _⟩

theorem deleteSubtree_ok {id : Int} {p : Paragraph} (h : s.get id = .ok p) :
    deleteSubtree id s = (.ok (), s.without id) := by
  unfold deleteSubtree
  rw [bind_ok get_run, bind_ok (lift_ok h)]
  rfl

theorem deleteSubtree_cases (id : Int) (s : Store) :
    (deleteSubtree id s).2 = s.without id ∨ (deleteSubtree id s).2 = s := by
  cases hid : s.get id with
  | error e =>
    unfold deleteSubtree
    rw [bind_ok get_run, bind_error (lift_error hid)]
    exact .inr rfl
  | ok p =>
    rw [deleteSubtree_ok hid]
    exact .inl rfl

theorem paragraphs_without (s : Store) (id : Int) :
    (s.without id).paragraphs = s.paragraphs.filter fun p => !(s.subtreeIds id).contains p.id := by
  show (s.rows.filter fun p => !(p.documentId == s.documentId &&
    (s.subtreeIds id).contains p.id)).filter (·.documentId == s.documentId) =
    (s.rows.filter (·.documentId == s.documentId)).filter _
  rw [List.filter_filter, List.filter_filter]
  apply List.filter_congr
  intro p _
  cases p.documentId == s.documentId <;> cases (s.subtreeIds id).contains p.id <;> rfl

section Delete

variable {C : Hole} {l b r : Forest} {id : Int} {fields : Fields}

/-- The paragraphs that stay when a subtree is removed, still with the gap that it leaves. -/
theorem Shows.holds_without (h : s.Shows (C.plug (l ++ cons id fields b r))) :
    (s.without id).Holds (↑(r.heads s.documentId C.parent (1 + l.width + 1)) +
      (C.frame s.documentId + ↑(l.heads s.documentId C.parent 1) + l.deeper s.documentId +
        r.deeper s.documentId)) := by
  have hM := h.holds
  rw [rows_around, add_assoc] at hM
  have hids : ({row s.documentId C.parent (1 + l.width) id fields} +
      b.rows s.documentId (some id)).map (·.id) = {id} + (b.ids : Multiset Int) := by
    rw [Multiset.map_add, Multiset.map_singleton, map_id_rows, row_id]
  have hrows := hM.rows_eq
  have hn := hM.nodup
  rw [Multiset.map_add, hids] at hn
  generalize ({row s.documentId C.parent (1 + l.width) id fields} +
    b.rows s.documentId (some id) : Multiset Paragraph) = N at hids hrows
  generalize (_ + (_ + _ + _ + _) : Multiset Paragraph) = K at hn hrows ⊢
  have hgone : ∀ p : Paragraph, (s.subtreeIds id).contains p.id = true ↔
      p.id ∈ ({id} + (b.ids : Multiset Int)) := by
    intro p
    rw [List.contains_iff_mem, mem_subtreeIds, h.within_iff, Multiset.mem_add,
      Multiset.mem_singleton, Multiset.mem_coe]
  have hN : N.filter (fun p => (!(s.subtreeIds id).contains p.id) = true) = 0 := by
    apply Multiset.filter_eq_nil.2
    intro p hp
    rw [(hgone p).2 (hids ▸ Multiset.mem_map_of_mem _ hp)]
    decide
  have hK : K.filter (fun p => (!(s.subtreeIds id).contains p.id) = true) = K := by
    apply Multiset.filter_eq_self.2
    intro p hp
    rw [Bool.not_eq_true', ← Bool.not_eq_true, hgone]
    exact fun hm => Multiset.disjoint_left.1 (Multiset.disjoint_of_nodup_add hn) hm
      (Multiset.mem_map_of_mem _ hp)
  refine ⟨?_, (Multiset.nodup_add.1 hn).2.1, ?_, ?_⟩
  · have hf := congrArg (Multiset.filter fun p => (!(s.subtreeIds id).contains p.id) = true) hrows
    rw [Multiset.filter_add, hN, hK, zero_add, Multiset.filter_coe] at hf
    rw [paragraphs_without, ← hf]
    simp only [Bool.decide_eq_true]
  · intro p hp
    exact h.issued p (List.mem_of_mem_filter hp)
  · intro p hp
    rw [paragraphs_without] at hp
    exact h.held p (List.mem_of_mem_filter hp)

/-- A paragraph goes with all below it, and the siblings after it move up. -/
theorem delete_outcome (hs : s.spoilt = false) (h : s.Shows (C.plug (l ++ cons id fields b r))) :
    Outcome s (fun _ f => f = C.plug (l ++ r)) (fun _ => False) False (delete id s) := by
  have ho := h.opened
  obtain ⟨p, hget, hparent, hposition, hlater⟩ := ho.exists_get
  have hback : (1 + (l.width : Int) + 1 + -1) = 1 + l.width := by omega
  have hM := ho.holds_without
  have hids : ((movesTo C.parent (1 + l.width) r).map (·.id)).Perm
      ((r.heads s.opened.documentId C.parent (1 + l.width + 1)).map (·.id)) := by
    rw [map_id_movesTo]
  have hcan : ∀ m ∈ movesTo C.parent (1 + l.width) r,
      (s.opened.without id).canHold m.position none = true := by
    intro m hm
    obtain ⟨-, h₁, h₂⟩ := mem_movesTo hm
    refine canHold_iff.2 fun hd => ⟨fits_iff.2 ?_, fun n hn => nomatch hn⟩
    have h₃ := ho.width_le hd
    rw [width_append] at h₃
    change l.width + (r.width + 1) ≤ _ at h₃
    omega
  have hready : (s.opened.without id).Ready (movesTo C.parent (1 + l.width) r) := by
    refine hM.ready hids fun m hm x hx => hM.contains_iff.2 ?_
    have hmem : x ∈ (C.plug (l ++ r)).ids := by
      rw [(Hole.ids_plug_perm _ _).mem_iff]
      exact List.mem_append_left _ (Hole.mem_ids_of_parent ((mem_movesTo hm).1.symm.trans hx))
    -- The ids of what stays are those of the forest without the node, whatever the positions.
    rw [← Multiset.mem_coe, ← map_id_rows s.opened.documentId none, rows_split] at hmem
    rw [Multiset.map_add, Multiset.map_coe, ← map_id_movesTo none _ 0 _ s.opened.documentId]
    rwa [Multiset.map_add, Multiset.map_coe, ← map_id_movesTo none _ 0 _ s.opened.documentId]
      at hmem
  unfold delete
  refine .transaction h (fun _ hf => hf) (fun hf => hf) ?_
  rw [bind_ok get_run, bind_ok (lift_ok hget)]
  rw [hlater, shifted_heads, hback, bind_ok (deleteSubtree_ok hget), makeMoves_ok hready hcan]
  refine .done ((follows_without s.opened id).trans (follows_relocate _ _))
    ((spoilt_opened s).trans hs) ((hM.relocate hids
      (map_relocated_heads _ (hM.nodup_moves hids) (List.Subset.refl _) _ _) hcan).shows_of ?_) rfl
  rw [rows_split]
  rfl

end Delete

/-! ## Paragraphs that are not there -/

theorem contains_opened (s : Store) (id : Int) : s.opened.contains id = s.contains id := by
  rw [opened_eq]
  rfl

/-- An edit that first looks up a paragraph that is not there fails and changes nothing. -/
theorem transaction_missing {α : Type} {id : Int} (hs : s.spoilt = false)
    (h : ¬ s.contains id = true) (k : Store → Paragraph → StoreM α) :
    ∃ e, transaction (MonadState.get >>= fun s => liftM (s.get id) >>= k s) s = (.error e, s) := by
  rw [← contains_opened] at h
  obtain ⟨e, he⟩ := get_error h
  refine ⟨e, transaction_unchanged hs ?_⟩
  rw [bind_ok get_run, bind_error (lift_error he)]

theorem append_missing (fields : Fields) {id : Int} (hs : s.spoilt = false)
    (h : ¬ s.contains id = true) : ∃ e, append fields (some id) s = (.error e, s) := by
  rw [← contains_opened] at h
  unfold append
  cases hn : s.opened.nextPosition (some id) with
  | error e =>
    refine ⟨e, transaction_unchanged hs ?_⟩
    rw [bind_ok get_run, bind_error (lift_error hn)]
  | ok position =>
    obtain ⟨e, he⟩ := create_missing position fields h
    refine ⟨e, transaction_unchanged hs ?_⟩
    rw [bind_ok get_run, bind_ok (lift_ok hn), he]

/-- The paragraph that a neighbour is given by. -/
def Neighbour.id : Neighbour → Int
  | before id => id
  | after id => id

theorem insert_missing (fields : Fields) {neighbour : Neighbour} (hs : s.spoilt = false)
    (h : ¬ s.contains neighbour.id = true) : ∃ e, insert fields neighbour s = (.error e, s) := by
  cases neighbour with
  | before id => exact transaction_missing hs h _
  | after id => exact transaction_missing hs h _

theorem indent_missing {id : Int} (hs : s.spoilt = false) (h : ¬ s.contains id = true) :
    ∃ e, indent id s = (.error e, s) := transaction_missing hs h _

theorem outdent_missing {id : Int} (hs : s.spoilt = false) (h : ¬ s.contains id = true) :
    ∃ e, outdent id s = (.error e, s) := transaction_missing hs h _

theorem delete_missing {id : Int} (hs : s.spoilt = false) (h : ¬ s.contains id = true) :
    ∃ e, delete id s = (.error e, s) := transaction_missing hs h _

end Bylaws.Store
