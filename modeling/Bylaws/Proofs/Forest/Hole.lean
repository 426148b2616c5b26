import Bylaws.Proofs.Forest.Basic

/-!
# Places in a forest

A hole is a forest with the trees below one node, or the topmost ones, taken out. Every edit
replaces the forest in a hole by another one, and leaves alone what is around the hole: the
paragraphs around it (`Hole.rows_plug`) and the lines before and after it (`Hole.lines_plug`).
-/

namespace Bylaws

open Forest

/-- A place for a forest: the top level, or below a node that has trees to its left and right. -/
inductive Hole where
  | top
  | under (left : Forest) (id : Int) (fields : Fields) (right : Forest) (outer : Hole)

namespace Hole

/-- The whole forest when a forest is put into the hole. -/
def plug : Hole → Forest → Forest
  | top, g => g
  | under left id fields right outer, g => outer.plug (left ++ cons id fields g right)

/-- The node that the hole is right below. -/
def parent : Hole → Option Int
  | top => none
  | under _ id _ _ _ => some id

/-- The depth of the topmost nodes of a forest in the hole. -/
def depth : Hole → Nat
  | top => 1
  | under _ _ _ _ outer => outer.depth + 1

/-- The lines before the hole. -/
def before : Hole → List Line
  | top => []
  | under left id fields _ outer =>
    outer.before ++ left.lines outer.depth ++ [⟨id, fields, outer.depth⟩]

/-- The lines after the hole. -/
def after : Hole → List Line
  | top => []
  | under _ _ _ right outer => right.lines outer.depth ++ outer.after

/-- The ids around the hole. -/
def ids (C : Hole) : List Int := (C.before ++ C.after).map Line.id

/-- The paragraphs around the hole. -/
def frame (doc : String) : Hole → Multiset Paragraph
  | top => 0
  | under left id fields right outer =>
    outer.frame doc + ↑((left ++ cons id fields nil right).heads doc outer.parent 1) +
      left.deeper doc + right.deeper doc

/-! ## What is around the hole -/

theorem lines_plug (C : Hole) (g : Forest) :
    (C.plug g).lines 1 = C.before ++ g.lines C.depth ++ C.after := by
  induction C generalizing g with
  | top => exact (List.append_nil _).symm
  | under left id fields right outer ih =>
    show (outer.plug (left ++ cons id fields g right)).lines 1 = _
    rw [ih, lines_append]
    simp only [lines, before, after, depth, List.append_assoc, List.cons_append, List.nil_append]

theorem ids_plug (C : Hole) (g : Forest) :
    (C.plug g).ids = C.before.map Line.id ++ g.ids ++ C.after.map Line.id := by
  rw [← map_id_lines (C.plug g) 1, lines_plug, List.map_append, List.map_append, map_id_lines]

theorem ids_plug_perm (C : Hole) (g : Forest) : (C.plug g).ids.Perm (C.ids ++ g.ids) := by
  unfold ids
  rw [ids_plug, List.map_append, List.append_assoc, List.append_assoc]
  exact List.Perm.append_left _ List.perm_append_comm

/-- What is put into the hole does not change the paragraphs around it. -/
theorem rows_plug (doc : String) (C : Hole) (g : Forest) :
    (C.plug g).rows doc none = C.frame doc + g.rows doc C.parent := by
  induction C generalizing g with
  | top => exact (zero_add _).symm
  | under left id fields right outer ih =>
    have h : (left ++ cons id fields g right).heads doc outer.parent 1 =
        (left ++ cons id fields nil right).heads doc outer.parent 1 := by
      rw [heads_append, heads_append]
      rfl
    show (outer.plug (left ++ cons id fields g right)).rows doc none = _
    rw [ih]
    unfold rows
    rw [h, deeper_append]
    show _ + (_ + (_ + (↑(g.heads doc (some id) 1) + g.deeper doc + right.deeper doc))) =
      outer.frame doc + _ + left.deeper doc + right.deeper doc + _
    simp only [parent]
    abel

/-- All nodes around the hole have ids and fields with a property. -/
def All (P : Int → Fields → Prop) : Hole → Prop
  | top => True
  | under left id fields right outer => outer.All P ∧ left.All P ∧ P id fields ∧ right.All P

@[simp] theorem all_plug {P : Int → Fields → Prop} (C : Hole) (g : Forest) :
    (C.plug g).All P ↔ C.All P ∧ g.All P := by
  induction C generalizing g with
  | top => exact (iff_of_eq (true_and _)).symm
  | under left id fields right outer ih =>
    show (outer.plug (left ++ cons id fields g right)).All P ↔ _
    simp only [ih, all_append, Forest.All, All]
    tauto

/-! ## Distinct ids -/

theorem ids_under_perm (left : Forest) (id : Int) (fields : Fields) (right : Forest)
    (outer : Hole) :
    (under left id fields right outer).ids.Perm
      (id :: (outer.ids ++ left.ids ++ right.ids)) := by
  have h : (under left id fields right outer).ids =
      outer.before.map Line.id ++ left.ids ++ [id] ++ (right.ids ++ outer.after.map Line.id) := by
    simp only [ids, before, after, List.map_append, List.map_cons, List.map_nil, map_id_lines]
  rw [h, ids, List.map_append, ← Multiset.coe_eq_coe, ← Multiset.cons_coe]
  simp only [← Multiset.coe_add, ← Multiset.cons_coe, Multiset.coe_nil, ← Multiset.singleton_add]
  abel

theorem mem_ids_of_parent {C : Hole} {id : Int} (h : C.parent = some id) : id ∈ C.ids := by
  cases C with
  | top => exact absurd h (by simp [parent])
  | under left id' fields right outer =>
    obtain rfl : id' = id := Option.some.inj h
    exact (ids_under_perm left id' fields right outer).mem_iff.2 List.mem_cons_self

/-- A paragraph around the hole lies at the top level or below a node around the hole. -/
theorem mem_frame {doc : String} {C : Hole} {p : Paragraph} (h : p ∈ C.frame doc) :
    p.id ∈ C.ids ∧ ∀ id, p.parent = some id → id ∈ C.ids := by
  induction C with
  | top => exact absurd h (Multiset.notMem_zero p)
  | under left id fields right outer ih =>
    have mem : ∀ i, (i = id ∨ i ∈ outer.ids ∨ i ∈ left.ids ∨ i ∈ right.ids) →
        i ∈ (under left id fields right outer).ids := by
      intro i hi
      rw [(ids_under_perm left id fields right outer).mem_iff, List.mem_cons, List.mem_append,
        List.mem_append]
      tauto
    simp only [frame, Multiset.mem_add, Multiset.mem_coe] at h
    rcases h with ((h | h) | h) | h
    · obtain ⟨h₁, h₂⟩ := ih h
      exact ⟨mem _ (.inr (.inl h₁)), fun i hi => mem i (.inr (.inl (h₂ i hi)))⟩
    · obtain ⟨h₁, h₂, -, -⟩ := mem_heads h
      refine ⟨mem _ ?_, fun i hi => mem i (.inr (.inl (mem_ids_of_parent (h₁.symm.trans hi))))⟩
      simp only [ids_append, ids_cons, ids_nil, List.nil_append, List.mem_append,
        List.mem_cons] at h₂
      tauto
    · obtain ⟨h₁, j, h₂, h₃⟩ := mem_deeper h
      refine ⟨mem _ (.inr (.inr (.inl h₁))), fun i hi => mem i (.inr (.inr (.inl ?_)))⟩
      rwa [Option.some.inj (hi.symm.trans h₃)]
    · obtain ⟨h₁, j, h₂, h₃⟩ := mem_deeper h
      refine ⟨mem _ (.inr (.inr (.inr h₁))), fun i hi => mem i (.inr (.inr (.inr ?_)))⟩
      rwa [Option.some.inj (hi.symm.trans h₃)]

theorem nodup_around {C : Hole} {g : Forest} (h : (C.plug g).ids.Nodup) : (C.ids ++ g.ids).Nodup :=
  (ids_plug_perm C g).nodup_iff.1 h

theorem parent_ne_of_mem_frame {doc : String} {C : Hole} (h : C.ids.Nodup) {p : Paragraph}
    (hp : p ∈ C.frame doc) : p.parent ≠ C.parent := by
  cases C with
  | top => exact absurd hp (Multiset.notMem_zero p)
  | under left id fields right outer =>
    have hid := (List.nodup_cons.1 ((ids_under_perm left id fields right outer).nodup_iff.1 h)).1
    simp only [List.mem_append, not_or] at hid
    intro he
    simp only [frame, Multiset.mem_add, Multiset.mem_coe] at hp
    rcases hp with ((hp | hp) | hp) | hp
    · exact hid.1.1 ((mem_frame hp).2 id he)
    · exact hid.1.1 (mem_ids_of_parent ((mem_heads hp).1.symm.trans he))
    · obtain ⟨-, j, hj, hpj⟩ := mem_deeper hp
      exact hid.1.2 (Option.some.inj (he.symm.trans hpj) ▸ hj)
    · obtain ⟨-, j, hj, hpj⟩ := mem_deeper hp
      exact hid.2 (Option.some.inj (he.symm.trans hpj) ▸ hj)

theorem parent_ne_of_mem_deeper {doc : String} {C : Hole} {g : Forest}
    (h : (C.ids ++ g.ids).Nodup) {p : Paragraph} (hp : p ∈ g.deeper doc) :
    p.parent ≠ C.parent := by
  obtain ⟨-, j, hj, hpj⟩ := mem_deeper hp
  intro he
  exact List.disjoint_of_nodup_append h (mem_ids_of_parent (he.symm.trans hpj)) hj

/-- The paragraphs right below the parent of a hole are the topmost ones of what is in it. -/
theorem filter_parent_rows {doc : String} {C : Hole} {g : Forest} (h : (C.plug g).ids.Nodup) :
    ((C.plug g).rows doc none).filter (fun p => p.parent = C.parent) =
      g.heads doc C.parent 1 := by
  have hn := nodup_around h
  rw [rows_plug, rows, Multiset.filter_add, Multiset.filter_add]
  have h₁ : (C.frame doc).filter (fun p => p.parent = C.parent) = 0 :=
    Multiset.filter_eq_nil.2 fun p hp => parent_ne_of_mem_frame hn.of_append_left hp
  have h₂ : (g.deeper doc).filter (fun p => p.parent = C.parent) = 0 :=
    Multiset.filter_eq_nil.2 fun p hp => parent_ne_of_mem_deeper hn hp
  have h₃ : (g.heads doc C.parent 1 : Multiset Paragraph).filter
      (fun p => p.parent = C.parent) = g.heads doc C.parent 1 :=
    Multiset.filter_eq_self.2 fun p hp => (mem_heads (Multiset.mem_coe.1 hp)).1
  rw [h₁, h₂, h₃, zero_add, add_zero]

/-! ## The place of a paragraph -/

theorem exists_plug_of_mem {doc : String} {p : Paragraph} {g : Forest} :
    ∀ (outer : Hole) (left : Forest),
      p ∈ (g.heads doc outer.parent (left.width + 1) : Multiset Paragraph) + g.deeper doc →
      ∃ (C : Hole) (l b r : Forest), outer.plug (left ++ g) = C.plug (l ++ cons p.id p.fields b r) ∧
        p = row doc C.parent (l.width + 1) p.id p.fields := by
  induction g with
  | nil =>
    intro outer left h
    exact absurd h (Multiset.notMem_zero p)
  | cons id fields below rest ih₁ ih₂ =>
    intro outer left h
    simp only [heads, deeper, Multiset.mem_add, Multiset.mem_coe, List.mem_cons] at h
    rcases h with (rfl | h) | (h | h) | h
    · exact ⟨outer, left, below, rest, rfl, rfl⟩
    · have hw : ((left ++ tree id fields below).width : Int) + 1 = left.width + 1 + 1 := by
        rw [width_append, width_tree]
        omega
      have := ih₂ outer (left ++ tree id fields below)
        (Multiset.mem_add.2 (.inl (Multiset.mem_coe.2 (hw ▸ h))))
      rwa [append_assoc, tree_append] at this
    · exact ih₁ (under left id fields rest outer) nil
        (Multiset.mem_add.2 (.inl (Multiset.mem_coe.2 h)))
    · exact ih₁ (under left id fields rest outer) nil (Multiset.mem_add.2 (.inr h))
    · have := ih₂ outer (left ++ tree id fields below) (Multiset.mem_add.2 (.inr h))
      rwa [append_assoc, tree_append] at this

/-- Every paragraph of a forest has a place in it. -/
theorem exists_plug_of_mem_rows {doc : String} {f : Forest} {p : Paragraph}
    (h : p ∈ f.rows doc none) :
    ∃ (C : Hole) (l b r : Forest), f = C.plug (l ++ cons p.id p.fields b r) ∧
      p = row doc C.parent (l.width + 1) p.id p.fields :=
  exists_plug_of_mem top nil h

end Hole

end Bylaws
