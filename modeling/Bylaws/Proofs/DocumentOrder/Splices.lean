import Bylaws.Proofs.Session.Runs

/-!
# Edits as splices of the document order

Adding, removing and importing change the document order at one place only: the lines before and
after that place stay as they are, with their depths and fields. A new paragraph stands right
before another one, right behind all that is below it, or behind all that is below its parent;
a removed one takes the lines below it along; an import puts in one line for each element of the
outline (`Store.edits_splice`).
-/

namespace Bylaws.Store

open Forest

variable {s : Store} {f : Forest}

/-- The document reads as some lines, and has no paragraph besides. -/
structure Reads (s : Store) (ls : List Line) : Prop where
  lines_eq : s.lines = ls
  content_perm : (s.paragraphs.map Paragraph.content).Perm (ls.map Line.content)

theorem Shows.reads (h : s.Shows f) : s.Reads (f.lines 1) := ⟨h.lines_eq, h.content_perm 1⟩

/-- Where a line stands: the lines before it, those of all that is below its paragraph, and the
lines after these. -/
structure Stretch (s : Store) (l : Line) (before below after : List Line) : Prop where
  reads : s.Reads (before ++ l :: below ++ after)
  nodup : ((before ++ l :: below ++ after).map Line.id).Nodup
  below_iff : ∀ q ∈ s.paragraphs, Below s.paragraphs l.id q ↔ q.id ∈ below.map Line.id

/-- An operation puts one line for a new paragraph between some lines, or fails since the medium
cannot hold what is added. -/
def Adds (op : StoreM Int) (s : Store) (fields : Fields) (depth : Nat)
    (before after : List Line) : Prop :=
  (∃ t, op s = (.ok s.nextId, t) ∧
    t.Reads (before ++ ⟨s.nextId, fields, depth⟩ :: after)) ∨
    ¬ s.Admits fields ∧ ∃ e t, op s = (.error e, t)

/-- An import that succeeds puts new lines between some lines. They have the ids that it answers,
and there is one for each element of the outline that is not a list, as deep as it is nested. -/
def Imports (outline : Value) (parent : Option Int) (s : Store) (depth : Nat)
    (before after : List Line) : Prop :=
  ∀ ids t, importOutline outline parent s = (.ok ids, t) →
    ∃ new, t.Reads (before ++ new ++ after) ∧ new.map Line.id = ids ∧
      List.Forall₂ (fun e l => e.1.fields = .ok l.fields ∧ e.2 = l.depth)
        (leavesIn depth (outline.members?.getD [])) new

/-- What an operation has done that adds a paragraph or fails for want of room. -/
theorem Outcome.adds {op : StoreM Int} {fields : Fields} {f' : Forest} {failed : Forest → Prop}
    {noRoom : Prop} {depth : Nat} {before after : List Line}
    (ho : Outcome s (fun id g => id = s.nextId ∧ g = f') failed noRoom (op s))
    (hf : ∀ g, failed g → ¬ s.Admits fields) (hr : noRoom → ¬ s.Admits fields)
    (hl : f'.lines 1 = before ++ ⟨s.nextId, fields, depth⟩ :: after) :
    Adds op s fields depth before after := by
  rcases hx : op s with ⟨r, t⟩
  rw [hx] at ho
  cases ho with
  | done _ _ h₃ h₄ =>
    obtain ⟨rfl, rfl⟩ := h₄
    exact .inl ⟨t, hx, hl ▸ h₃.reads⟩
  | failed _ _ _ h₄ => exact .inr ⟨hf _ h₄, _, _, hx⟩
  | spoilt _ _ _ _ h₅ => exact .inr ⟨hr h₅, _, _, hx⟩

/-! ## The end of a place -/

section Place

variable {C : Hole} {g : Forest}

theorem Shows.append_adds (hs : s.spoilt = false) (h : s.Shows (C.plug g)) (fields : Fields) :
    Adds (append fields C.parent) s fields C.depth (C.before ++ g.lines C.depth) C.after := by
  refine (append_outcome hs h).adds (fun _ hf => hf.2) (fun hf => hf) ?_
  rw [Hole.lines_plug, lines_append, lines_tree, lines_nil, List.append_assoc, List.append_assoc,
    List.append_assoc]
  rfl

theorem Shows.imports (hs : s.spoilt = false) (h : s.Shows (C.plug g)) (outline : Value) :
    Imports outline C.parent s C.depth (C.before ++ g.lines C.depth) C.after := by
  intro ids t hrun
  have ho := importOutline_outcome hs h outline
  rw [hrun] at ho
  cases ho with
  | done _ _ h₃ h₄ =>
    obtain ⟨g', rfl, new, hl, hids, hnew⟩ := h₄
    refine ⟨new, ?_, hids, hnew⟩
    have hr := h₃.reads
    rwa [Hole.lines_plug, hl, ← List.append_assoc] at hr

end Place

/-! ## Around a paragraph -/

section Around

variable {C : Hole} {l b r : Forest} {id : Int} {fields : Fields}

theorem lines_around (C : Hole) (l : Forest) (id : Int) (fields : Fields) (b r : Forest) :
    (C.plug (l ++ cons id fields b r)).lines 1 =
      C.before ++ l.lines C.depth ++ ⟨id, fields, C.depth⟩ :: b.lines (C.depth + 1) ++
        (r.lines C.depth ++ C.after) := by
  simp only [Hole.lines_plug, lines_append, Forest.lines, List.append_assoc, List.cons_append]

theorem Shows.stretch (h : s.Shows (C.plug (l ++ cons id fields b r))) :
    s.Stretch ⟨id, fields, C.depth⟩ (C.before ++ l.lines C.depth) (b.lines (C.depth + 1))
      (r.lines C.depth ++ C.after) where
  reads := by
    rw [← lines_around]
    exact h.reads
  nodup := by
    rw [← lines_around, map_id_lines]
    exact h.nodup
  below_iff := by
    intro q hq
    rw [h.below_iff, map_id_lines]
    exact and_iff_right hq

theorem insert_adds_of_not_holdsHeading {new : Fields} (hh : ¬ s.HoldsHeading new)
    (neighbour : Neighbour) (depth : Nat) (before after : List Line) :
    Adds (insert new neighbour) s new depth before after := by
  right
  refine ⟨fun ha => hh ha.2, ?_⟩
  rcases hx : insert new neighbour s with ⟨e | n, t⟩
  · exact ⟨e, t, rfl⟩
  · exact absurd (insert_eq_ok hx) hh

theorem Shows.insert_before_adds (hs : s.spoilt = false)
    (h : s.Shows (C.plug (l ++ cons id fields b r))) (new : Fields) :
    Adds (insert new (.before id)) s new C.depth (C.before ++ l.lines C.depth)
      (⟨id, fields, C.depth⟩ :: b.lines (C.depth + 1) ++ (r.lines C.depth ++ C.after)) := by
  by_cases hh : s.HoldsHeading new
  · refine (insert_before_outcome hs hh h).adds (fun _ hf ha => hf.2 ha.1)
      (fun hf ha => hf ha.1) ?_
    simp only [Hole.lines_plug, lines_append, Forest.lines, List.append_assoc, List.cons_append,
      List.nil_append]
  · exact insert_adds_of_not_holdsHeading hh _ _ _ _

theorem Shows.insert_after_adds (hs : s.spoilt = false)
    (h : s.Shows (C.plug (l ++ cons id fields b r))) (new : Fields) :
    Adds (insert new (.after id)) s new C.depth
      (C.before ++ l.lines C.depth ++ ⟨id, fields, C.depth⟩ :: b.lines (C.depth + 1))
      (r.lines C.depth ++ C.after) := by
  by_cases hh : s.HoldsHeading new
  · refine (insert_after_outcome hs hh h).adds (fun _ hf ha => hf.2 ha.1)
      (fun hf ha => hf ha.1) ?_
    simp only [Hole.lines_plug, lines_append, Forest.lines, List.append_assoc, List.cons_append,
      List.nil_append]
  · exact insert_adds_of_not_holdsHeading hh _ _ _ _

theorem Shows.delete_reads (hs : s.spoilt = false)
    (h : s.Shows (C.plug (l ++ cons id fields b r))) :
    ∃ t, delete id s = (.ok (), t) ∧
      t.Reads (C.before ++ l.lines C.depth ++ (r.lines C.depth ++ C.after)) := by
  obtain ⟨_, t, f, hrun, -, -, hf, rfl⟩ :=
    (delete_outcome hs h).exists_done (fun _ hn => hn) not_false
  refine ⟨t, hrun, ?_⟩
  have hr := hf.reads
  rwa [Hole.lines_plug, lines_append, ← List.append_assoc, List.append_assoc] at hr

/-- What comes before the end of what is below a paragraph. -/
theorem before_under (C : Hole) (l : Forest) (id : Int) (fields : Fields) (b r : Forest) :
    (Hole.under l id fields r C).before ++ b.lines (C.depth + 1) =
      C.before ++ l.lines C.depth ++ ⟨id, fields, C.depth⟩ :: b.lines (C.depth + 1) := by
  simp only [Hole.before, List.append_assoc, List.cons_append, List.nil_append]

end Around

/-- Edits that add or remove paragraphs are splices of the document order. -/
theorem edits_splice (h : s.Reachable) :
    (∀ p ∈ s.paragraphs, ∃ line before below after, line.content = p.content ∧
      s.Stretch line before below after ∧
      (∀ fields,
        Adds (insert fields (.before p.id)) s fields line.depth before
          (line :: below ++ after) ∧
        Adds (insert fields (.after p.id)) s fields line.depth (before ++ line :: below) after ∧
        Adds (append fields (some p.id)) s fields (line.depth + 1) (before ++ line :: below)
          after) ∧
      (∃ t, delete p.id s = (.ok (), t) ∧ t.Reads (before ++ after)) ∧
      ∀ outline, Imports outline (some p.id) s (line.depth + 1) (before ++ line :: below)
        after) ∧
    (∀ fields, Adds (append fields none) s fields 1 s.lines []) ∧
    ∀ outline, Imports outline none s 1 s.lines [] := by
  obtain ⟨f, hf⟩ := h.exists_shows
  have hs := h.spoilt_eq
  refine ⟨?_, ?_, ?_⟩
  · intro p hp
    obtain ⟨C, l, b, r, rfl, -⟩ := hf.exists_place hp
    have hunder := hf.under
    refine ⟨⟨p.id, p.fields, C.depth⟩, _, _, _, rfl, hf.stretch, fun fields => ?_,
      hf.delete_reads hs, fun outline => ?_⟩
    · refine ⟨hf.insert_before_adds hs fields, hf.insert_after_adds hs fields, ?_⟩
      rw [← before_under C l p.id p.fields b r]
      exact hunder.append_adds hs fields
    · rw [← before_under C l p.id p.fields b r]
      exact hunder.imports hs outline
  · intro fields
    have ha := Shows.append_adds (C := .top) hs hf fields
    rwa [hf.lines_eq]
  · intro outline
    have hi := Shows.imports (C := .top) hs hf outline
    rwa [hf.lines_eq]

theorem edits_splice_sample :
    ∃ new t, importOutline (.list [.text "e", .list [.text "f"]]) none sample = (.ok [4, 5], t) ∧
      t.Reads (sample.lines ++ new ++ []) ∧ new.map Line.id = [4, 5] := by
  obtain ⟨-, -, himport⟩ := edits_splice reachable_sample
  obtain ⟨new, hr, hids, -⟩ := himport (.list [.text "e", .list [.text "f"]]) [4, 5] _ rfl
  exact ⟨new, _, rfl, hr, hids⟩

end Bylaws.Store
