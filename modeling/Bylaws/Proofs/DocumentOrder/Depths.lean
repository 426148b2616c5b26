import Bylaws.Proofs.Session.Runs

/-!
# Indenting and outdenting in document order

Moving a paragraph down or up a level leaves the document order as it is. What changes is the
depth of the paragraph and of all that was below it, by one; the lines of all other paragraphs,
those that get another parent included, stay as they were (`Store.indent_outdent_shift`).
-/

namespace Bylaws

open Forest

/-- A line before and after a change of depth for some ids: the others keep their depth. -/
def Line.Shifted (moved : Int → Prop) (change : Nat → Nat → Prop) (l l' : Line) : Prop :=
  l'.id = l.id ∧ l'.fields = l.fields ∧ (moved l.id → change l.depth l'.depth) ∧
    (¬ moved l.id → l'.depth = l.depth)

theorem Line.shifted_of_not_moved {moved : Int → Prop} (change : Nat → Nat → Prop) {l : Line}
    (h : ¬ moved l.id) : l.Shifted moved change l :=
  ⟨rfl, rfl, fun hm => absurd hm h, fun _ => rfl⟩

theorem map_content_of_shifted {moved : Int → Prop} {change : Nat → Nat → Prop}
    {ls ls' : List Line} (h : List.Forall₂ (Line.Shifted moved change) ls ls') :
    ls'.map Line.content = ls.map Line.content := by
  induction h with
  | nil => rfl
  | cons hl _ ih =>
    rw [List.map_cons, List.map_cons, ih]
    unfold Line.content
    rw [hl.1, hl.2.1]

theorem forall₂_shifted_lines {moved : Int → Prop} {change : Nat → Nat → Prop} {d d' : Nat}
    (hc : ∀ k, change (d + k) (d' + k)) {g : Forest} (hm : ∀ id ∈ g.ids, moved id) (k : Nat) :
    List.Forall₂ (Line.Shifted moved change) (g.lines (d + k)) (g.lines (d' + k)) := by
  induction g generalizing k with
  | nil => exact .nil
  | cons id fields below rest ih₁ ih₂ =>
    rw [ids_cons, List.forall_mem_cons, List.forall_mem_append] at hm
    obtain ⟨hid, hbelow, hrest⟩ := hm
    exact .cons ⟨rfl, rfl, fun _ => hc k, fun hn => absurd hid hn⟩
      (List.rel_append (ih₁ hbelow (k + 1)) (ih₂ hrest k))

/-- When a branch is put at another depth and the lines around it stay, just the ids of the
branch are moved. -/
theorem forall₂_shifted {moved : Int → Prop} {change : Nat → Nat → Prop}
    {before after : List Line} {g : Forest} {d d' : Nat}
    (hn : ((before ++ g.lines d ++ after).map Line.id).Nodup)
    (hm : ∀ id, moved id ↔ id ∈ g.ids) (hc : ∀ k, change (d + k) (d' + k)) :
    List.Forall₂ (Line.Shifted moved change) (before ++ g.lines d ++ after)
      (before ++ g.lines d' ++ after) := by
  rw [List.map_append, List.map_append, map_id_lines] at hn
  have stay : ∀ ls : List Line, (∀ l ∈ ls, l.id ∉ g.ids) →
      List.Forall₂ (Line.Shifted moved change) ls ls := fun ls hls =>
    List.forall₂_same.2 fun l hl =>
      Line.shifted_of_not_moved change fun hmem => hls l hl ((hm l.id).1 hmem)
  have hbefore := stay before fun l hl hmem =>
    List.disjoint_of_nodup_append hn.of_append_left (List.mem_map_of_mem hl) hmem
  have hafter := stay after fun l hl hmem =>
    List.disjoint_of_nodup_append hn (List.mem_append_right _ hmem) (List.mem_map_of_mem hl)
  exact List.rel_append (List.rel_append hbefore
    (forall₂_shifted_lines hc (fun id hid => (hm id).2 hid) 0)) hafter

namespace Store

variable {s : Store} {p : Paragraph}

/-- An operation answers whether it moved a paragraph. It does not if the paragraph has to stay,
and then it changes nothing. Otherwise the document order stays as it is, the paragraph and all
below it change their depth, and no paragraph comes, goes or changes its fields. -/
def Shifts (op : StoreM Bool) (s : Store) (id : Int) (stays : Prop)
    (change : Nat → Nat → Prop) : Prop :=
  ∃ moved t, op s = (.ok moved, t) ∧ (moved = false ↔ stays) ∧ (moved = false → t = s) ∧
    List.Forall₂ (Line.Shifted (fun i => moved = true ∧ Within s.paragraphs id i) change)
      s.lines t.lines ∧
    (t.paragraphs.map Paragraph.content).Perm (s.paragraphs.map Paragraph.content)

/-- In a database that holds more paragraphs than it has positions, an operation may fail. -/
def RunsOut {α : Type} (op : StoreM α) (s : Store) : Prop :=
  ¬ s.HasRoom 0 ∧ ∃ e t, op s = (.error e, t)

theorem shifts_unchanged {op : StoreM Bool} {id : Int} {stays : Prop}
    (change : Nat → Nat → Prop) (hop : op s = (.ok false, s)) (hstays : stays) :
    Shifts op s id stays change := by
  refine ⟨false, s, hop, ⟨fun _ => hstays, fun _ => rfl⟩, fun _ => rfl, ?_, .refl _⟩
  exact List.forall₂_same.2 fun l _ => Line.shifted_of_not_moved change fun h => nomatch h.1

/-- What an operation has done whose outcome is the forest with a branch at another depth. -/
theorem Outcome.shifts {op : StoreM Bool} {id : Int} {stays : Prop} {change : Nat → Nat → Prop}
    {f f' : Forest} (ho : Outcome s (fun moved g => moved = true ∧ g = f')
      (fun g => g = f ∧ s.Cramped f') (s.Cramped f') (op s))
    (h : s.Shows f) (hstays : ¬ stays)
    (hl : List.Forall₂ (Line.Shifted (Within s.paragraphs id) change) (f.lines 1) (f'.lines 1)) :
    Shifts op s id stays change ∨ RunsOut op s := by
  rcases hx : op s with ⟨r, t⟩
  rw [hx] at ho
  cases ho with
  | done _ _ h₃ h₄ =>
    obtain ⟨rfl, rfl⟩ := h₄
    refine .inl ⟨true, t, hx, ⟨nofun, fun hst => absurd hst hstays⟩, nofun, ?_, ?_⟩
    · rw [h.lines_eq, h₃.lines_eq]
      simpa using hl
    · refine (h₃.content_perm 1).trans (.trans ?_ (h.content_perm 1).symm)
      rw [map_content_of_shifted hl]
  | failed _ _ _ h₄ => exact .inr ⟨h₄.2.1, _, _, hx⟩
  | spoilt _ _ _ _ h₅ => exact .inr ⟨h₅.1, _, _, hx⟩

/-- A paragraph is first among its siblings. -/
def First (s : Store) (p : Paragraph) : Prop :=
  ∀ q ∈ s.paragraphs, q.parent = p.parent → p.position ≤ q.position

theorem exists_lines_indented (C : Hole) (l : Forest) (q : Int) (qf : Fields) (qb : Forest)
    (id : Int) (fields : Fields) (b r : Forest) :
    ∃ before after,
      (C.plug (l ++ cons q qf qb (cons id fields b r))).lines 1 =
        before ++ (tree id fields b).lines C.depth ++ after ∧
      (C.plug (l ++ cons q qf (qb ++ tree id fields b) r)).lines 1 =
        before ++ (tree id fields b).lines (C.depth + 1) ++ after := by
  refine ⟨C.before ++ l.lines C.depth ++ ⟨q, qf, C.depth⟩ :: qb.lines (C.depth + 1),
    r.lines C.depth ++ C.after, ?_, ?_⟩
  · simp only [Hole.lines_plug, lines_append, Forest.lines, lines_tree, List.append_assoc,
      List.cons_append]
  · simp only [Hole.lines_plug, lines_append, Forest.lines, lines_tree, List.append_assoc,
      List.cons_append]

theorem exists_lines_outdented (C : Hole) (l : Forest) (q : Int) (qf : Fields) (qb : Forest)
    (id : Int) (fields : Fields) (b a r : Forest) :
    ∃ before after,
      (C.plug (l ++ cons q qf (qb ++ cons id fields b a) r)).lines 1 =
        before ++ (tree id fields b).lines (C.depth + 1) ++ after ∧
      (C.plug (l ++ cons q qf qb (cons id fields (b ++ a) r))).lines 1 =
        before ++ (tree id fields b).lines C.depth ++ after := by
  refine ⟨C.before ++ l.lines C.depth ++ ⟨q, qf, C.depth⟩ :: qb.lines (C.depth + 1),
    a.lines (C.depth + 1) ++ (r.lines C.depth ++ C.after), ?_, ?_⟩
  · simp only [Hole.lines_plug, lines_append, Forest.lines, lines_tree, List.append_assoc,
      List.cons_append]
  · simp only [Hole.lines_plug, lines_append, Forest.lines, lines_tree, List.append_assoc,
      List.cons_append]

section Shift

variable {C : Hole} {l b r : Forest} {id : Int} {fields : Fields}

theorem Shows.indent_shifts (hs : s.spoilt = false)
    (h : s.Shows (C.plug (l ++ cons id fields b r))) :
    Shifts (indent id) s id (First s (row s.documentId C.parent (1 + l.width) id fields))
      (fun d d' => d' = d + 1) ∨ RunsOut (indent id) s := by
  rcases eq_nil_or_append_tree l with rfl | ⟨l, q, qf, qb, rfl⟩
  · refine .inl (shifts_unchanged _ (indent_first hs h) fun q hq hparent => ?_)
    exact (mem_heads (h.mem_heads_of_parent hq hparent)).2.2.1
  · have hw := fun x => h.within_iff (x := x)
    rw [append_assoc, tree_append] at h
    refine (indent_outcome hs h).shifts h ?_ ?_
    · intro hfirst
      have hle := hfirst _ h.row_mem rfl
      rw [row_position, row_position, width_append, width_tree] at hle
      omega
    · obtain ⟨before, after, h₁, h₂⟩ := exists_lines_indented C l q qf qb id fields b r
      have hn := h.nodup
      rw [← map_id_lines _ 1, h₁] at hn
      rw [h₁, h₂]
      refine forall₂_shifted hn ?_ ?_
      · intro x
        rw [hw, tree, ids_cons, ids_nil, List.append_nil, List.mem_cons]
      · intro k
        omega

theorem Shows.outdent_shifts (hs : s.spoilt = false)
    (h : s.Shows (C.plug (l ++ cons id fields b r))) :
    Shifts (outdent id) s id (C.parent = none) (fun d d' => d' + 1 = d) ∨
      RunsOut (outdent id) s := by
  cases C with
  | top => exact .inl (shifts_unchanged _ (outdent_top hs h) rfl)
  | under left q qf right outer =>
    have hw := fun x => h.within_iff (x := x)
    refine (outdent_outcome hs h).shifts h nofun ?_
    obtain ⟨before, after, h₁, h₂⟩ :=
      exists_lines_outdented outer left q qf l id fields b r right
    have hn := h.nodup
    rw [← map_id_lines _ 1] at hn
    change (((outer.plug (left ++ cons q qf (l ++ cons id fields b r) right)).lines 1).map
      Line.id).Nodup at hn
    rw [h₁] at hn
    show List.Forall₂ _ ((outer.plug (left ++ cons q qf (l ++ cons id fields b r) right)).lines 1) _
    rw [h₁, h₂]
    refine forall₂_shifted hn ?_ ?_
    · intro x
      rw [hw, tree, ids_cons, ids_nil, List.append_nil, List.mem_cons]
    · intro k
      omega

end Shift

/-- Indenting and outdenting keep the document order and all fields. Indenting answers no just for
the first among siblings, and otherwise puts the paragraph and all below it one level deeper;
outdenting answers no just at the top level, and otherwise takes them one level up. -/
theorem indent_outdent_shift (h : s.Reachable) (hp : p ∈ s.paragraphs) :
    (Shifts (indent p.id) s p.id (First s p) (fun d d' => d' = d + 1) ∨
      RunsOut (indent p.id) s) ∧
    (Shifts (outdent p.id) s p.id (p.parent = none) (fun d d' => d' + 1 = d) ∨
      RunsOut (outdent p.id) s) := by
  obtain ⟨f, hf⟩ := h.exists_shows
  obtain ⟨C, l, b, r, rfl, hrow⟩ := hf.exists_place hp
  have hfirst := hf.indent_shifts h.spoilt_eq
  have htop := hf.outdent_shifts h.spoilt_eq
  rw [Int.add_comm] at hrow
  rw [← hrow] at hfirst
  have hparent : p.parent = C.parent := by rw [hrow, row_parent]
  rw [← hparent] at htop
  exact ⟨hfirst, htop⟩

theorem indent_outdent_shift_sample :
    (Shifts (indent 3) sample 3 False (fun d d' => d' = d + 1) ∨ RunsOut (indent 3) sample) ∧
      (Shifts (outdent 3) sample 3 True (fun d d' => d' + 1 = d) ∨ RunsOut (outdent 3) sample) := by
  have hp : row "d" none 2 3 { body := "c" } ∈ sample.paragraphs := by decide
  have h := indent_outdent_shift reachable_sample hp
  have hfirst : First sample (row "d" none 2 3 { body := "c" }) ↔ False := by
    unfold First
    decide
  have htop : (row "d" none 2 3 { body := "c" }).parent = none ↔ True := by decide
  rw [hfirst, htop] at h
  exact h

end Store

end Bylaws
