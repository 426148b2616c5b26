import Bylaws.Proofs.DocumentOrder.Depths
import Bylaws.Proofs.DocumentOrder.Splices
import Bylaws.Proofs.Forest.Lines

/-!
# What comes before an edit

The place, the rank and the number of a paragraph depend only on the lines up to it
(`Shows.keeps_of_before`). An edit leaves the lines alone that come before the paragraph that it
makes, moves or removes (`Edit.Turns.alike_before_made`, `Edit.Turns.alike_before_moved`). So it
never renumbers what comes before that paragraph (`Store.edits_keep_earlier`).
-/

namespace Bylaws

open Forest

/-! ## Forests that are alike up to a node -/

/-- Two forests have the same lines before a node of the second. -/
def AlikeBefore (x : Int) (f f' : Forest) : Prop :=
  ∃ before l after after', f.lines 1 = before ++ after ∧ f'.lines 1 = before ++ l :: after' ∧
    l.id = x

theorem alikeBefore_self {C : Hole} {l b r : Forest} {id : Int} {fields : Fields} :
    AlikeBefore id (C.plug (l ++ cons id fields b r)) (C.plug (l ++ cons id fields b r)) := by
  have h := Store.lines_around C l id fields b r
  rw [List.append_assoc] at h
  exact ⟨_, ⟨id, fields, C.depth⟩, _, _, h, h, rfl⟩

namespace Edit

/-- The paragraph that an edit moves or removes. -/
def moved? : Edit → Option Int
  | indent id => some id
  | outdent id => some id
  | delete id => some id
  | _ => none

theorem Turns.alike_before_moved {next x : Int} {e : Edit} {f f' : Forest} {ids : List Int}
    (h : e.Turns next f ids f') (hx : e.moved? = some x) : AlikeBefore x f' f := by
  cases h with
  | first C id fields b r =>
    obtain rfl := Option.some.inj hx
    exact alikeBefore_self (l := nil)
  | top l id fields b r =>
    obtain rfl := Option.some.inj hx
    exact alikeBefore_self (C := .top)
  | indent C l q qf qb id fields b r =>
    obtain rfl := Option.some.inj hx
    obtain ⟨before, after, hl, hl'⟩ := Store.exists_lines_indented C l q qf qb id fields b r
    rw [lines_tree, List.append_assoc] at hl hl'
    exact ⟨before, _, _, _, hl', hl, rfl⟩
  | outdent C l q qf qb id fields b a r =>
    obtain rfl := Option.some.inj hx
    obtain ⟨before, after, hl, hl'⟩ := Store.exists_lines_outdented C l q qf qb id fields b a r
    rw [lines_tree, List.append_assoc] at hl hl'
    exact ⟨before, _, _, _, hl', hl, rfl⟩
  | delete C l id fields b r =>
    obtain rfl := Option.some.inj hx
    have hl := Store.lines_around C l id fields b r
    rw [List.append_assoc] at hl
    refine ⟨_, _, r.lines C.depth ++ C.after, _, ?_, hl, rfl⟩
    rw [Hole.lines_plug, lines_append, ← List.append_assoc, List.append_assoc]
  | _ => exact nomatch hx

theorem Turns.alike_before_made {next x : Int} {e : Edit} {f f' : Forest} {ids : List Int}
    (h : e.Turns next f ids f') (hx : ids.head? = some x) : AlikeBefore x f f' := by
  cases h with
  | @append fields _ C g =>
    obtain rfl := Option.some.inj hx
    refine ⟨C.before ++ g.lines C.depth, ⟨next, fields, C.depth⟩, C.after, C.after,
      Hole.lines_plug C g, ?_, rfl⟩
    rw [Hole.lines_plug, lines_append, lines_tree, ← List.append_assoc, List.append_assoc]
    rfl
  | @before fields _ _ id _ _ C l old b r =>
    obtain rfl := Option.some.inj hx
    have hl := Store.lines_around C l id old b r
    rw [List.append_assoc] at hl
    refine ⟨_, ⟨next, fields, C.depth⟩, _, (cons id old b r).lines C.depth ++ C.after, hl, ?_, rfl⟩
    rw [Store.lines_around, List.append_assoc]
    rfl
  | @after fields _ _ id _ _ C l old b r =>
    obtain rfl := Option.some.inj hx
    refine ⟨_, ⟨next, fields, C.depth⟩, _, r.lines C.depth ++ C.after,
      Store.lines_around C l id old b r, ?_, rfl⟩
    rw [Store.lines_around]
    rfl
  | @importOutline _ C g _ ids hg hids =>
    obtain ⟨new, hl, rfl, -⟩ := hg
    cases new with
    | nil => exact nomatch hx
    | cons l new =>
      obtain rfl := Option.some.inj hx
      refine ⟨C.before ++ g.lines C.depth, l, C.after, new ++ C.after, Hole.lines_plug C g, ?_, rfl⟩
      rw [Hole.lines_plug, hl]
      simp
  | _ => exact nomatch hx

end Edit

namespace Store

/-! ## Paragraphs that keep their numbers -/

variable {s t : Store} {f f' : Forest}

/-- A paragraph is stored alike in two stores, with the same depth, rank and number. -/
structure Keeps (s t : Store) (p : Paragraph) : Prop where
  mem : p ∈ s.paragraphs
  mem_later : p ∈ t.paragraphs
  depth_eq : t.depth p = s.depth p
  rank?_eq : ∀ choices, t.rank? choices p = s.rank? choices p
  number?_eq : ∀ choices c, t.number? choices c p = s.number? choices c p

/-- Nodes at holes that only differ in what comes after them. -/
theorem Shows.keeps_of_cut {C C' : Hole} {l b b' r r' : Forest} {id : Int} {fields : Fields}
    (h : s.Shows (C.plug (l ++ cons id fields b r)))
    (h' : t.Shows (C'.plug (l ++ cons id fields b' r'))) (hdoc : t.documentId = s.documentId)
    (hcut : C.cut = C'.cut) :
    Keeps s t (row s.documentId C.parent (1 + l.width) id fields) := by
  have hdepth : C.depth = C'.depth := by rw [← C.depth_cut, hcut, C'.depth_cut]
  have hparent : C.parent = C'.parent := by rw [← C.parent_cut, hcut, C'.parent_cut]
  have hranks : ∀ choices, C.ranks choices = C'.ranks choices := by
    intro choices
    rw [← C.ranks_cut, hcut, C'.ranks_cut]
  have hrow : row t.documentId C'.parent (1 + l.width) id fields =
      row s.documentId C.parent (1 + l.width) id fields := by rw [hdoc, hparent]
  refine ⟨h.row_mem, hrow ▸ h'.row_mem, ?_, fun choices => ?_, fun choices c => ?_⟩
  · rw [h.depth_eq rfl, h'.depth_eq (hrow ▸ rfl), hdepth]
  · rw [← hrow, h'.rank?_eq, hrow, h.rank?_eq]
  · rw [← hrow, h'.number?_eq, hrow, h.number?_eq, hranks, hdepth]

/-- Lines are split in one way only at an id. -/
theorem append_cons_inj_of_id {as as' bs bs' : List Line} {l l' : Line}
    (hn : ((as ++ l :: bs).map Line.id).Nodup) (h : as ++ l :: bs = as' ++ l' :: bs')
    (hid : l.id = l'.id) : as = as' ∧ l = l' ∧ bs = bs' := by
  have hnot : ∀ m ∈ as ++ bs, m ≠ l' := by
    rintro m hm rfl
    rw [List.map_append, List.map_cons, hid] at hn
    have hperm := List.nodup_middle.1 hn
    rw [← List.map_append] at hperm
    exact (List.nodup_cons.1 hperm).1 (List.mem_map_of_mem hm)
  exact (List.append_cons_inj_of_notMem (fun hm => hnot l' (List.mem_append_left _ hm) rfl)
    fun hm => hnot l' (List.mem_append_right _ hm) rfl).1 h

/-- Paragraphs whose lines come in the same way in two documents are kept. -/
theorem Shows.keeps_of_before {before after after' : List Line} {id : Int} (h : s.Shows f)
    (h' : t.Shows f') (hdoc : t.documentId = s.documentId) (hl : f.lines 1 = before ++ after)
    (hl' : f'.lines 1 = before ++ after') (hid : id ∈ before.map Line.id) :
    ∃ p, p.id = id ∧ Keeps s t p := by
  obtain ⟨line, hmem, rfl⟩ := List.mem_map.1 hid
  obtain ⟨as, bs, rfl⟩ := List.append_of_mem hmem
  rw [List.append_assoc, List.cons_append] at hl hl'
  have place : ∀ {u : Store} {g : Forest} {cs : List Line}, u.Shows g →
      g.lines 1 = as ++ line :: cs → ∃ (C : Hole) (l b r : Forest) (fields : Fields),
        g = C.plug (l ++ cons line.id fields b r) ∧ as = C.before ++ l.lines C.depth ∧
          line = ⟨line.id, fields, C.depth⟩ := by
    intro u g cs hg hlines
    have hcontains : line.id ∈ g.ids := by
      rw [← map_id_lines g 1, hlines]
      simp
    obtain ⟨C, l, b, r, fields, rfl⟩ := hg.exists_node (hg.contains_iff.2 hcontains)
    have hn := hg.nodup
    rw [← map_id_lines _ 1, hlines] at hn
    rw [lines_around, List.append_assoc] at hlines
    obtain ⟨has, hline, -⟩ := append_cons_inj_of_id hn hlines.symm rfl
    exact ⟨C, l, b, r, fields, rfl, has, hline⟩
  obtain ⟨C, l, b, r, fields, rfl, has, hline⟩ := place h hl
  obtain ⟨C', l', b', r', fields', rfl, has', hline'⟩ := place h' hl'
  obtain ⟨-, rfl, hdepth⟩ := Line.mk.inj (hline.symm.trans hline')
  obtain ⟨hbefore, rfl⟩ := Hole.before_append_inj hdepth (has.symm.trans has')
  exact ⟨_, rfl, h.keeps_of_cut h' hdoc (Hole.cut_eq_of_before hbefore)⟩

/-- In document order a paragraph comes before another one. -/
def Precedes (s : Store) (id x : Int) : Prop :=
  ∃ before after, s.documentOrder.map (·.id) = before ++ x :: after ∧ id ∈ before

theorem Shows.map_id_documentOrder (h : s.Shows f) :
    s.documentOrder.map (·.id) = (f.lines 1).map Line.id := by
  rw [← h.lines_eq]
  unfold documentOrder lines
  rw [List.map_map, List.map_map]
  rfl

/-- What comes before a node up to which two forests are alike is kept. -/
theorem Shows.keeps_of_alike {id x : Int} (h : s.Shows f) (h' : t.Shows f')
    (hdoc : t.documentId = s.documentId) (ha : AlikeBefore x f f') (hp : t.Precedes id x) :
    ∃ p, p.id = id ∧ Keeps s t p := by
  obtain ⟨before, l, after, after', hl, hl', rfl⟩ := ha
  obtain ⟨earlier, later, horder, hmem⟩ := hp
  have hn := h'.nodup
  rw [h'.map_id_documentOrder, hl', List.map_append, List.map_cons] at horder
  rw [← map_id_lines _ 1, hl', List.map_append, List.map_cons] at hn
  have hnot := (List.nodup_cons.1 (List.nodup_middle.1 hn)).1
  rw [List.mem_append, not_or] at hnot
  obtain ⟨hearlier, -⟩ := (List.append_cons_inj_of_notMem hnot.1 hnot.2).1 horder
  exact h.keeps_of_before h' hdoc hl hl' (hearlier ▸ hmem)

theorem Keeps.symm {p : Paragraph} (h : Keeps s t p) : Keeps t s p where
  mem := h.mem_later
  mem_later := h.mem
  depth_eq := h.depth_eq.symm
  rank?_eq := fun choices => (h.rank?_eq choices).symm
  number?_eq := fun choices c => (h.number?_eq choices c).symm

/-- An edit that succeeds keeps the place, the rank and the number of every paragraph that comes
before the one that it makes, moves or removes. -/
theorem edits_keep_earlier (h : s.Reachable) {e : Edit} {ids : List Int}
    (hrun : e.run s = (.ok ids, t)) :
    (∀ x, e.moved? = some x → ∀ id, s.Precedes id x → ∃ p, p.id = id ∧ Keeps s t p) ∧
      ∀ x, ids.head? = some x → ∀ id, t.Precedes id x → ∃ p, p.id = id ∧ Keeps s t p := by
  obtain ⟨f, hf⟩ := h.exists_shows
  have ho := edit_turns h.spoilt_eq hf (holdable_of_run hrun)
  rw [hrun] at ho
  cases ho with
  | @done _ _ f' hfol _ hf' hturns =>
    have hdoc := hfol.documentId_eq
    refine ⟨fun x hx id hp => ?_, fun x hx id hp => ?_⟩
    · obtain ⟨p, rfl, hkeeps⟩ := hf'.keeps_of_alike hf hdoc.symm (hturns.alike_before_moved hx) hp
      exact ⟨p, rfl, hkeeps.symm⟩
    · exact hf.keeps_of_alike hf' hdoc (hturns.alike_before_made hx) hp

theorem edits_keep_earlier_sample :
    ∃ t p, (Edit.insert { body := "e" } none (some 2)).run sample = (.ok [4], t) ∧ p.id = 2 ∧
      Keeps sample t p := by
  obtain ⟨-, hmade⟩ := edits_keep_earlier reachable_sample
    (show (Edit.insert { body := "e" } none (some 2)).run sample = (.ok [4], _) from rfl)
  obtain ⟨p, hid, hkeeps⟩ := hmade 4 rfl 2 ⟨[1, 2], [3], by decide, by decide⟩
  exact ⟨_, p, rfl, hid, hkeeps⟩

end Store

end Bylaws
