import Bylaws.Proofs.Session.Failures
import Bylaws.Proofs.Session.Runs

/-!
# Edits that undo each other

`Store.edits_undone`: a paragraph that has just been made is taken away again by deleting it, an
indent by an outdent, and an outdent by an indent if the paragraph was the last among its siblings.
What is restored is the whole store, but for the ids that have been issued since.

1. Rows never change their order: in a later store those that are left come in the order that they
   had, and new ones after them (`Built.keepsOrder`). So a later store that shows the same forest
   has the same rows (`KeepsOrder.restored`).
2. What an indent or an outdent that has been done found, and what it has made of it
   (`exists_of_indent`, `exists_of_outdent`).
3. The edit that undoes another one cannot run out of positions, since it comes back to places
   that have been held before (`Shows.accommodates`, `accommodates_indented`).

The siblings after a paragraph that is outdented go below it, and stay there when it is indented
again; this is the one case in which the store is not restored.
-/

namespace Bylaws.Store

open Forest

variable {α : Type} {s t u : Store} {f : Forest}

/-! ## Rows in order -/

/-- What a row is known by while a document is edited: its id in that document, and all of it in
the others. -/
def mark (doc : String) (p : Paragraph) : Int ⊕ Paragraph :=
  if p.documentId = doc then .inl p.id else .inr p

def marks (s : Store) : List (Int ⊕ Paragraph) := s.rows.map (mark s.documentId)

theorem mark_moveRow (doc : String) (id position : Int) (parent : Option Int) (p : Paragraph) :
    mark doc (moveRow doc id position parent p) = mark doc p := by
  unfold mark
  rw [moveRow_documentId, moveRow_id]
  by_cases hp : p.documentId = doc
  · rw [if_pos hp, if_pos hp]
  · rw [if_neg hp, if_neg hp]
    unfold moveRow
    rw [if_neg (by simp [hp])]

/-- From a store to a later one rows may go and new ones may come after all others; those that are
left stay in order. -/
structure KeepsOrder (s t : Store) : Prop extends Spares s t where
  marks_eq : ∃ kept new, t.marks = kept ++ new ∧ kept.Sublist s.marks ∧
    ∀ x ∈ new, ∃ id, s.nextId ≤ id ∧ x = .inl id

namespace KeepsOrder

/-- Nothing new has come. -/
theorem of_sublist (h : s.Spares t) (hsub : t.marks.Sublist s.marks) : s.KeepsOrder t where
  toSpares := h
  marks_eq := ⟨t.marks, [], (List.append_nil _).symm, hsub, by simp⟩

theorem refl (s : Store) : s.KeepsOrder s := .of_sublist (.refl s) (.refl _)

theorem trans (h₁ : s.KeepsOrder t) (h₂ : t.KeepsOrder u) : s.KeepsOrder u where
  toSpares := h₁.toSpares.trans h₂.toSpares
  marks_eq := by
    obtain ⟨kept, new, hmarks, hkept, hnew⟩ := h₁.marks_eq
    obtain ⟨kept', new', hmarks', hkept', hnew'⟩ := h₂.marks_eq
    rw [hmarks] at hkept'
    obtain ⟨old, since, rfl, hold, hsince⟩ := List.sublist_append_iff.1 hkept'
    refine ⟨old, since ++ new', ?_, hold.trans hkept, ?_⟩
    · rw [hmarks', List.append_assoc]
    · intro x hx
      rcases List.mem_append.1 hx with hx | hx
      · exact hnew x (hsince.subset hx)
      · obtain ⟨id, hid, rfl⟩ := hnew' x hx
        exact ⟨id, h₁.nextId_le.trans hid, rfl⟩

theorem added (s : Store) (parent : Option Int) (position : Int) (fields : Fields) :
    s.KeepsOrder (s.added parent position fields) where
  toSpares := .added s parent position fields
  marks_eq := by
    refine ⟨s.marks, [.inl s.nextId], ?_, .refl _, ?_⟩
    · show (s.rows ++ [row s.documentId parent position s.nextId fields]).map
        (mark s.documentId) = _
      rw [List.map_append]
      simp [marks, mark, row]
    · simp

theorem moved (s : Store) (id position : Int) (parent : Option Int) :
    s.KeepsOrder { s with rows := s.rows.map (moveRow s.documentId id position parent) } := by
  have hmarks : (s.rows.map (moveRow s.documentId id position parent)).map (mark s.documentId) =
      s.marks := by
    rw [List.map_map]
    exact List.map_congr_left fun p _ => mark_moveRow _ _ _ _ p
  refine .of_sublist (.moved s id position parent) ?_
  show ((s.rows.map (moveRow s.documentId id position parent)).map _).Sublist s.marks
  rw [hmarks]

theorem without (s : Store) (id : Int) : s.KeepsOrder (s.without id) :=
  .of_sublist (.without s id) (List.filter_sublist.map _)

theorem spoilt (s : Store) : s.KeepsOrder { s with spoilt := s.inTransaction } :=
  .of_sublist (.spoilt s) (.refl _)

theorem closed (undone : Bool) (h : s.opened.KeepsOrder t) : s.KeepsOrder (closed undone s t) := by
  have hspares := Spares.closed undone h.toSpares
  have hdoc : (Store.closed undone s t).documentId = s.documentId := hspares.documentId_eq
  rcases rows_closed undone s t with hrows | hrows
  · refine .of_sublist hspares ?_
    unfold marks
    rw [hrows, hdoc]
  · obtain ⟨kept, new, hmarks, hkept, hnew⟩ := h.marks_eq
    have hclosed : (Store.closed undone s t).marks = t.marks := by
      unfold marks
      rw [hrows, hdoc, h.documentId_eq, documentId_opened]
    have hopened : s.opened.marks = s.marks := by
      unfold marks
      rw [rows_opened, documentId_opened]
    rw [hopened] at hkept
    rw [nextId_opened] at hnew
    exact ⟨hspares, kept, new, hclosed.trans hmarks, hkept, hnew⟩

end KeepsOrder

theorem Built.keepsOrder {x : StoreM α} (h : Built x) {a : Except Fault α}
    (hrun : x s = (a, t)) : s.KeepsOrder t := by
  have hkeeps : s.KeepsOrder (x s).2 := by
    refine h.relates KeepsOrder.refl (fun _ _ _ h₁ h₂ => h₁.trans h₂) ?_ ?_ ?_
      (fun undone _ _ h => .closed undone h) s
    · intro parent position fields s
      rcases create_cases parent position fields s with h | h | h <;> rw [h]
      · exact .added s parent position fields
      · exact .refl s
      · exact .spoilt s
    · intro id position parent s
      rcases move_cases id position parent s with h | h | h <;> rw [h]
      · exact .moved s id position parent
      · exact .refl s
      · exact .spoilt s
    · intro id s
      rcases deleteSubtree_cases id s with h | h <;> rw [h]
      · exact .without s id
      · exact .refl s
  rwa [hrun] at hkeeps

/-! ## Stores that are restored -/

/-- A store is as it was, but for the ids that have been issued since. -/
def Restored (s t : Store) : Prop := t = { s with nextId := t.nextId }

/-- A store with the same paragraphs has the same rows, since those of other documents are
spared. -/
theorem Spares.rows_perm (h : s.Spares t) (hp : t.paragraphs.Perm s.paragraphs) :
    t.rows.Perm s.rows := by
  have hcount : ∀ (p : Paragraph) (rows : List Paragraph),
      (rows.filter (·.documentId == p.documentId)).count p = rows.count p := by
    intro p rows
    exact List.count_filter (by simp)
  refine List.perm_iff_count.2 fun p => ?_
  rw [← hcount p t.rows, ← hcount p s.rows]
  by_cases hd : p.documentId = s.documentId
  · have hcounts := hp.count_eq p
    unfold paragraphs at hcounts
    rw [h.documentId_eq] at hcounts
    rw [hd, hcounts]
  · rw [h.others_eq p.documentId hd]

theorem eq_of_map_eq {α β : Type} {g : α → β} {xs ys : List α} (h : xs.map g = ys.map g)
    (hg : ∀ x ∈ xs, ∀ y ∈ ys, g x = g y → x = y) : xs = ys := by
  induction xs generalizing ys with
  | nil => exact (List.map_eq_nil_iff.1 h.symm).symm
  | cons x xs ih =>
    cases ys with
    | nil => exact nomatch h
    | cons y ys =>
      obtain ⟨hhead, htail⟩ := List.cons.inj h
      rw [hg x List.mem_cons_self y List.mem_cons_self hhead,
        ih htail fun a ha b hb => hg a (List.mem_cons_of_mem x ha) b (List.mem_cons_of_mem y hb)]

/-- A row is known by its mark. -/
theorem Shows.eq_of_mark_eq (h : s.Shows f) {p q : Paragraph} (hp : p ∈ s.rows) (hq : q ∈ s.rows)
    (hpq : mark s.documentId p = mark s.documentId q) : p = q := by
  unfold mark at hpq
  by_cases hpd : p.documentId = s.documentId
  · by_cases hqd : q.documentId = s.documentId
    · rw [if_pos hpd, if_pos hqd] at hpq
      have hp' : p ∈ s.paragraphs := List.mem_filter.2 ⟨hp, by simp [hpd]⟩
      have hq' : q ∈ s.paragraphs := List.mem_filter.2 ⟨hq, by simp [hqd]⟩
      exact h.eq_of_id_eq hp' hq' (Sum.inl.inj hpq)
    · rw [if_pos hpd, if_neg hqd] at hpq
      exact nomatch hpq
  · by_cases hqd : q.documentId = s.documentId
    · rw [if_neg hpd, if_pos hqd] at hpq
      exact nomatch hpq
    · rw [if_neg hpd, if_neg hqd] at hpq
      exact Sum.inr.inj hpq

/-- Where no row has come and none has gone, all are in order. -/
theorem KeepsOrder.marks_eq_of_perm (h : s.KeepsOrder t) (hs : s.Shows f)
    (hperm : t.rows.Perm s.rows) : t.marks = s.marks := by
  obtain ⟨kept, new, hmarks, hkept, hnew⟩ := h.marks_eq
  have hnone : new = [] := by
    refine List.eq_nil_iff_forall_not_mem.2 fun x hx => ?_
    obtain ⟨id, hid, rfl⟩ := hnew x hx
    have hmem : Sum.inl id ∈ t.marks := hmarks ▸ List.mem_append_right kept hx
    obtain ⟨p, hp, hmark⟩ := List.mem_map.1 hmem
    have hissued := hs.issued p (hperm.mem_iff.1 hp)
    unfold mark at hmark
    split at hmark
    · obtain rfl := Sum.inl.inj hmark
      omega
    · exact nomatch hmark
  rw [hnone, List.append_nil] at hmarks
  rw [hmarks]
  refine hkept.eq_of_length ?_
  rw [← hmarks]
  unfold marks
  rw [List.length_map, List.length_map, hperm.length_eq]

/-- A later store that shows the same forest has the same rows. -/
theorem KeepsOrder.rows_eq (h : s.KeepsOrder t) (hs : s.Shows f) (ht : t.Shows f) :
    t.rows = s.rows := by
  have hperm := h.rows_perm (ht.perm hs h.documentId_eq)
  have hmarks := h.marks_eq_of_perm hs hperm
  unfold marks at hmarks
  rw [h.documentId_eq] at hmarks
  exact eq_of_map_eq hmarks fun p hp q hq => hs.eq_of_mark_eq (hperm.mem_iff.1 hp) hq

theorem KeepsOrder.restored (h : s.KeepsOrder t) (hs : s.Shows f) (ht : t.Shows f)
    (hspoilt : s.spoilt = false) (hspoilt' : t.spoilt = false) : s.Restored t := by
  have hrows := h.rows_eq hs ht
  have hmedium := h.medium_eq
  have hdoc := h.documentId_eq
  have hin := h.inTransaction_eq
  obtain ⟨medium, documentId, rows, nextId, inTransaction, spoilt⟩ := s
  obtain ⟨medium', documentId', rows', nextId', inTransaction', spoilt'⟩ := t
  dsimp only at hrows hmedium hdoc hin hspoilt hspoilt'
  subst hrows hmedium hdoc hin hspoilt hspoilt'
  rfl

/-! ## A paragraph that has been made -/

section Delete

variable {C : Hole} {l r : Forest} {id : Int} {fields : Fields}

/-- Deleting a paragraph with nothing below it restores a store that had all but this one. -/
theorem KeepsOrder.delete_restores (h : s.KeepsOrder t) (hs : s.Shows (C.plug (l ++ r)))
    (hspoilt : s.spoilt = false) (hspoilt' : t.spoilt = false)
    (ht : t.Shows (C.plug (l ++ cons id fields nil r))) :
    ∃ u, delete id t = (.ok (), u) ∧ s.Restored u := by
  obtain ⟨_, u, f, hrun, -, hu, hf, rfl⟩ :=
    (delete_outcome hspoilt' ht).exists_done (fun _ hf => hf) (fun hno => hno)
  have hlater := (delete_built id).keepsOrder hrun
  exact ⟨u, hrun, (h.trans hlater).restored hs hf hspoilt hu⟩

end Delete

/-- Deleting what an append or an insert has just made. -/
theorem delete_undoes (hspoilt : s.spoilt = false) (hs : s.Shows f) {e : Edit}
    (he : e.writes = true) {ids : List Int} (hrun : e.run s = (.ok ids, t)) :
    ∃ id u, ids = [id] ∧ delete id t = (.ok (), u) ∧ s.Restored u := by
  have hkeeps := (run_built e).keepsOrder hrun
  have ho := edit_turns hspoilt hs (holdable_of_run hrun)
  rw [hrun] at ho
  cases ho with
  | done _ hspoilt' ht hturns =>
    refine ⟨s.nextId, ?_⟩
    cases hturns with
    | append _ C g =>
      have hs' : s.Shows (C.plug (g ++ nil)) := by rwa [Forest.append_nil]
      obtain ⟨u, hu⟩ := hkeeps.delete_restores hs' hspoilt hspoilt' ht
      exact ⟨u, rfl, hu⟩
    | before _ _ C l old b r =>
      obtain ⟨u, hu⟩ := hkeeps.delete_restores hs hspoilt hspoilt' ht
      exact ⟨u, rfl, hu⟩
    | @after fields _ _ id _ _ C l old b r =>
      have hs' : s.Shows (C.plug ((l ++ tree id old b) ++ r)) := by
        rwa [append_assoc, tree_append]
      have ht' : t.Shows (C.plug ((l ++ tree id old b) ++ cons s.nextId fields nil r)) := by
        rw [append_assoc, tree_append]
        exact ht
      obtain ⟨u, hu⟩ := hkeeps.delete_restores hs' hspoilt hspoilt' ht'
      exact ⟨u, rfl, hu⟩
    | _ => exact nomatch he

/-! ## What has been moved -/

/-- What an indent that was done found: a sibling before the paragraph. -/
theorem exists_of_indent (hspoilt : s.spoilt = false) (hs : s.Shows f) {id : Int}
    (hrun : indent id s = (.ok true, t)) :
    ∃ (C : Hole) (l : Forest) (q : Int) (qf : Fields) (qb : Forest) (fields : Fields)
      (b r : Forest), f = C.plug (l ++ cons q qf qb (cons id fields b r)) ∧
      t.spoilt = false ∧ t.Shows (C.plug (l ++ cons q qf (qb ++ tree id fields b) r)) := by
  by_cases hid : s.contains id = true
  · obtain ⟨C, l, b, r, fields, rfl⟩ := hs.exists_node hid
    rcases eq_nil_or_append_tree l with rfl | ⟨l, q, qf, qb, rfl⟩
    · rw [indent_first hspoilt hs] at hrun
      exact nomatch hrun
    · rw [append_assoc, tree_append] at hs
      have ho := indent_outcome hspoilt hs
      rw [hrun] at ho
      cases ho with
      | done _ hspoilt' ht hdone =>
        obtain ⟨-, rfl⟩ := hdone
        exact ⟨C, l, q, qf, qb, fields, b, r, by rw [append_assoc, tree_append], hspoilt', ht⟩
  · obtain ⟨e, he⟩ := indent_missing hspoilt hid
    rw [he] at hrun
    exact nomatch hrun

/-- What an outdent that was done found: a parent. -/
theorem exists_of_outdent (hspoilt : s.spoilt = false) (hs : s.Shows f) {id : Int}
    (hrun : outdent id s = (.ok true, t)) :
    ∃ (C : Hole) (l : Forest) (q : Int) (qf : Fields) (qb : Forest) (fields : Fields)
      (b a r : Forest), f = C.plug (l ++ cons q qf (qb ++ cons id fields b a) r) ∧
      t.spoilt = false ∧ t.Shows (C.plug (l ++ cons q qf qb (cons id fields (b ++ a) r))) := by
  by_cases hid : s.contains id = true
  · obtain ⟨C, l, b, r, fields, rfl⟩ := hs.exists_node hid
    cases C with
    | top =>
      rw [outdent_top hspoilt hs] at hrun
      exact nomatch hrun
    | under left q qf right outer =>
      have ho := outdent_outcome hspoilt hs
      rw [hrun] at ho
      cases ho with
      | done _ hspoilt' ht hdone =>
        obtain ⟨-, rfl⟩ := hdone
        exact ⟨outer, left, q, qf, l, fields, b, r, right, rfl, hspoilt', ht⟩
  · obtain ⟨e, he⟩ := outdent_missing hspoilt hid
    rw [he] at hrun
    exact nomatch hrun

/-! ## Places that have been held -/

/-- What a store shows can be held in every later one. -/
theorem Shows.accommodates (h : s.Shows f) (hfol : s.Follows t) : t.Accommodates f := by
  intro p hp
  rw [hfol.documentId_eq, ← h.mem_iff] at hp
  have hheld := h.held p hp
  rw [canHold_iff] at hheld ⊢
  rwa [hfol.medium_eq]

section Move

variable {C : Hole} {l qb b a r : Forest} {q id : Int} {qf fields : Fields}

/-- When a paragraph that has been outdented is indented again, all others go back to where they
were or stay where they are. -/
theorem accommodates_indented
    (h : s.Accommodates (C.plug (l ++ cons q qf (qb ++ cons id fields b a) r)))
    (h' : s.Accommodates (C.plug (l ++ cons q qf qb (cons id fields (b ++ a) r)))) :
    s.Accommodates (C.plug (l ++ cons q qf (qb ++ tree id fields (b ++ a)) r)) := by
  obtain ⟨B, hB, -⟩ := outdent_rows s.documentId C l q qf qb id fields b a r
  obtain ⟨B', hB', hindented⟩ := indent_rows s.documentId C l q qf qb id fields (b ++ a) r
  intro p hp
  rw [hindented] at hp
  rcases Multiset.mem_add.1 hp with hmoved | hstays
  · refine h p ?_
    rw [hB]
    refine Multiset.mem_add.2 (.inl ?_)
    simp only [heads_tree, Multiset.mem_coe, List.mem_append] at hmoved ⊢
    exact .inl hmoved.symm
  · refine h' p ?_
    rw [hB']
    exact Multiset.mem_add.2 (.inr hstays)

/-- An outdent undoes an indent. -/
theorem outdent_undoes (hspoilt : s.spoilt = false) (hs : s.Shows f)
    (hrun : indent id s = (.ok true, t)) : ∃ u, outdent id t = (.ok true, u) ∧ s.Restored u := by
  have hkeeps := (indent_built id).keepsOrder hrun
  obtain ⟨C, l, q, qf, qb, fields, b, r, rfl, hspoilt', ht⟩ := exists_of_indent hspoilt hs hrun
  have hback := outdent_outcome hspoilt' ht
  rw [Forest.append_nil] at hback
  have hroom : ¬ t.Cramped (C.plug (l ++ cons q qf qb (cons id fields b r))) :=
    fun hno => hno.2 (hs.accommodates hkeeps.toFollows)
  obtain ⟨_, u, _, hrun', -, hspoilt'', hu, rfl, rfl⟩ := hback.exists_done (fun _ hf => hf.2) hroom
  have hkeeps' := (outdent_built id).keepsOrder hrun'
  exact ⟨u, hrun', (hkeeps.trans hkeeps').restored hs hu hspoilt hspoilt''⟩

/-- A paragraph is last among its siblings. -/
def Last (s : Store) (p : Paragraph) : Prop :=
  ∀ q ∈ s.paragraphs, q.parent = p.parent → q.position ≤ p.position

theorem Shows.last_iff (h : s.Shows (C.plug (l ++ cons id fields b r))) :
    s.Last (row s.documentId C.parent (1 + l.width) id fields) ↔ r = nil := by
  constructor
  · intro hlast
    cases r with
    | nil => rfl
    | cons id' fields' b' r =>
      have hs : s.Shows (C.plug ((l ++ tree id fields b) ++ cons id' fields' b' r)) := by
        rwa [append_assoc, tree_append]
      have hle := hlast _ hs.row_mem rfl
      rw [row_position, row_position, width_append, width_tree] at hle
      omega
  · rintro rfl p hp hparent
    have hlt := (mem_heads (h.mem_heads_of_parent hp hparent)).2.2.2
    rw [← tree, width_append, width_tree] at hlt
    rw [row_position]
    omega

theorem childCount_eq_of_perm (h : t.paragraphs.Perm s.paragraphs) (parent : Option Int) :
    t.childCount parent = s.childCount parent := (h.filter _).length_eq

theorem eq_nil_of_width {g : Forest} (h : g.width = 0) : g = nil := by
  cases g with
  | nil => rfl
  | cons => exact absurd h (Nat.succ_ne_zero _)

/-- An indent undoes an outdent of a paragraph that was last among its siblings. The siblings
after another one stay below it. -/
theorem indent_undoes (hspoilt : s.spoilt = false) (hs : s.Shows f)
    (hrun : outdent id s = (.ok true, t)) :
    ∃ p u, s.get id = .ok p ∧ indent id t = (.ok true, u) ∧ (s.Last p → s.Restored u) ∧
      (u.paragraphs.Perm s.paragraphs → s.Last p) := by
  have hkeeps := (outdent_built id).keepsOrder hrun
  obtain ⟨C, l, q, qf, qb, fields, b, a, r, rfl, hspoilt', ht⟩ :=
    exists_of_outdent hspoilt hs hrun
  have hunder : s.Shows ((Hole.under l q qf r C).plug (qb ++ cons id fields b a)) := hs
  have hroom : ¬ t.Cramped (C.plug (l ++ cons q qf (qb ++ tree id fields (b ++ a)) r)) :=
    fun hno => hno.2 (accommodates_indented (hs.accommodates hkeeps.toFollows)
      (ht.accommodates (.refl t)))
  obtain ⟨_, u, _, hrun', -, hspoilt'', hu, rfl, rfl⟩ :=
    (indent_outcome hspoilt' ht).exists_done (fun _ hf => hf.2) hroom
  refine ⟨_, u, hunder.get_plug, hrun', ?_⟩
  rw [hunder.last_iff]
  constructor
  · rintro rfl
    have hkeeps' := (indent_built id).keepsOrder hrun'
    rw [Forest.append_nil] at hu
    exact (hkeeps.trans hkeeps').restored hs hu hspoilt hspoilt''
  · intro hperm
    have hcount := childCount_eq_of_perm hperm (some id)
    have hbelow : s.childCount (some id) = b.width := hunder.under.childCount_eq
    have hu' : u.Shows ((Hole.under l q qf r C).plug (qb ++ cons id fields (b ++ a) nil)) := hu
    have hbelow' : u.childCount (some id) = (b ++ a).width := hu'.under.childCount_eq
    rw [hbelow, hbelow', width_append] at hcount
    exact eq_nil_of_width (by omega)

end Move

/-! ## Undoing -/

/-- What an append or an insert has made is taken away by a delete, an indent is undone by an
outdent, and after an outdent an indent can be done. This restores the store if the paragraph was
the last among its siblings, and otherwise not even the paragraphs, in whatever order. -/
theorem edits_undone (h : s.Reachable) :
    (∀ e : Edit, e.writes = true → ∀ ids t, e.run s = (.ok ids, t) →
      ∃ id u, ids = [id] ∧ delete id t = (.ok (), u) ∧ s.Restored u) ∧
    (∀ id t, indent id s = (.ok true, t) →
      ∃ u, outdent id t = (.ok true, u) ∧ s.Restored u) ∧
    ∀ id t, outdent id s = (.ok true, t) →
      ∃ p u, s.get id = .ok p ∧ indent id t = (.ok true, u) ∧ (s.Last p → s.Restored u) ∧
        (u.paragraphs.Perm s.paragraphs → s.Last p) := by
  obtain ⟨f, hs⟩ := h.exists_shows
  refine ⟨?_, ?_, ?_⟩
  · intro e he ids t hrun
    exact delete_undoes h.spoilt_eq hs he hrun
  · intro id t hrun
    exact outdent_undoes h.spoilt_eq hs hrun
  · intro id t hrun
    exact indent_undoes h.spoilt_eq hs hrun

/-- A document of one topmost paragraph with two below it. -/
def twins : Store :=
  (Session.run { store := { documentId := "d" } }
    [.edit (.append { body := "a" } none), .edit (.append { body := "b" } (some 1)),
      .edit (.append { body := "c" } (some 1))]).store

theorem reachable_twins : twins.Reachable :=
  ⟨_, _, fresh_empty .memory "d", by simp [Event.Holdable, Edit.Holdable], rfl, rfl⟩

theorem edits_undone_twins :
    (∃ u, delete 4 ((Edit.append { body := "d" } none).run twins).2 = (.ok (), u) ∧
      twins.Restored u) ∧
    (∃ u, outdent 3 (indent 3 twins).2 = (.ok true, u) ∧ twins.Restored u) ∧
    ∃ u, indent 2 (outdent 2 twins).2 = (.ok true, u) ∧
      ¬ u.paragraphs.Perm twins.paragraphs := by
  obtain ⟨hmade, hindented, houtdented⟩ := edits_undone reachable_twins
  refine ⟨?_, hindented 3 _ rfl, ?_⟩
  · obtain ⟨_, u, hids, hrun, hrestored⟩ := hmade (.append { body := "d" } none) rfl [4] _ rfl
    obtain ⟨rfl, -⟩ := List.cons.inj hids
    exact ⟨u, hrun, hrestored⟩
  · obtain ⟨p, u, hget, hrun, -, honly⟩ := houtdented 2 _ rfl
    obtain rfl : row "d" (some 1) 1 2 { body := "b" } = p := Except.ok.inj hget
    refine ⟨u, hrun, fun hperm => ?_⟩
    have hlast := honly hperm
    revert hlast
    unfold Last
    decide

end Bylaws.Store
