import Bylaws.Proofs.DocumentOrder.Earlier

/-!
# The walk through a document

`Store.walk_enumerates`: the walk gives out every paragraph once.

1. The walk works off a stack, and nothing remembers what has been on it (`Store.Yields`). That it
   ends rests on the forest alone: the children of a node, once on the stack, are worked off before
   what was below them there (`Shows.yields`).
2. What is below a paragraph is one stretch of the walk, right behind it, and a walk that begins
   below the paragraph is just that stretch (`Shows.segment`).
3. The ids and the depths tell the places: the walks of two documents that agree in them come from
   forests that only differ in their fields (`Forest.bare_eq_of_marks`).
-/

namespace Bylaws

/-- What the walk tells of a paragraph without its fields. -/
def Line.mark (l : Line) : Int × Nat := (l.id, l.depth)

/-- Where a paragraph stands. -/
def Paragraph.place (p : Paragraph) : Int × Option Int × Int := (p.id, p.parent, p.position)

namespace Forest

/-! ## Nodes side by side -/

theorem walkForest_append (depth : Nat) (ns ms : List Node) :
    walkForest depth (ns ++ ms) = walkForest depth ns ++ walkForest depth ms := by
  induction ns with
  | nil => rfl
  | cons n ns ih => rw [List.cons_append, walkForest, walkForest, ih, List.append_assoc]

theorem nodes_append (doc : String) (parent : Option Int) (k : Int) (f g : Forest) :
    (f ++ g).nodes doc parent k = f.nodes doc parent k ++ g.nodes doc parent (k + f.width) := by
  induction f generalizing k with
  | nil => simp [nodes]
  | cons id fields below rest _ ih =>
    have h : k + 1 + (rest.width : Int) = k + ((rest.width + 1 : Nat) : Int) := by omega
    simp only [cons_append, nodes, ih, List.cons_append, width, h]

/-! ## Forests without fields -/

/-- A forest in which all nodes have the same fields. -/
def bare : Forest → Forest
  | nil => nil
  | cons id _ below rest => cons id { body := "" } below.bare rest.bare

theorem lines_bare (f : Forest) (depth : Nat) :
    f.bare.lines depth =
      ((f.lines depth).map Line.mark).map fun m => ⟨m.1, { body := "" }, m.2⟩ := by
  induction f generalizing depth with
  | nil => rfl
  | cons id fields below rest ih₁ ih₂ =>
    simp only [bare, lines, ih₁, ih₂, List.map_cons, List.map_append]
    rfl

/-- The ids and the depths of its lines tell a forest but for the fields. -/
theorem bare_eq_of_marks {f g : Forest} {depth : Nat}
    (h : (f.lines depth).map Line.mark = (g.lines depth).map Line.mark) : f.bare = g.bare := by
  have hlines : f.bare.lines depth = g.bare.lines depth := by rw [lines_bare, lines_bare, h]
  exact lines_injective hlines

theorem map_place_heads (doc doc' : String) (parent : Option Int) (k : Int) (f : Forest) :
    (f.bare.heads doc' parent k).map Paragraph.place =
      (f.heads doc parent k).map Paragraph.place := by
  induction f generalizing k with
  | nil => rfl
  | cons id fields below rest _ ih =>
    rw [bare, heads, heads, List.map_cons, List.map_cons, ih]
    rfl

theorem map_place_deeper (doc doc' : String) (f : Forest) :
    (f.bare.deeper doc').map Paragraph.place = (f.deeper doc).map Paragraph.place := by
  induction f with
  | nil => rfl
  | cons id fields below rest ih₁ ih₂ =>
    simp only [bare, deeper, Multiset.map_add, Multiset.map_coe, ih₁, ih₂,
      map_place_heads doc doc']

/-- Where the paragraphs of a forest stand does not depend on their fields. -/
theorem map_place_rows (doc doc' : String) (parent : Option Int) (f : Forest) :
    (f.bare.rows doc' parent).map Paragraph.place = (f.rows doc parent).map Paragraph.place := by
  simp only [rows, Multiset.map_add, Multiset.map_coe, map_place_heads doc doc',
    map_place_deeper doc doc']

end Forest

open Forest

/-- The walk through a forest in a place is one stretch of the walk through the whole. -/
theorem Hole.exists_walkForest_plug (doc : String) (C : Hole) (g : Forest) :
    ∃ before after, walkForest 1 ((C.plug g).nodes doc none 1) =
      before ++ walkForest C.depth (g.nodes doc C.parent 1) ++ after := by
  induction C generalizing g with
  | top => exact ⟨[], [], (List.append_nil _).symm⟩
  | under left id fields right outer ih =>
    obtain ⟨before, after, h⟩ := ih (left ++ cons id fields g right)
    refine ⟨before ++ walkForest outer.depth (left.nodes doc outer.parent 1) ++
        [(row doc outer.parent (1 + left.width) id fields, outer.depth)],
      walkForest outer.depth (right.nodes doc outer.parent (1 + left.width + 1)) ++ after, ?_⟩
    rw [plug, h, nodes_append, walkForest_append, nodes, walkForest, Node.walk]
    simp only [depth, parent, List.append_assoc, List.cons_append, List.nil_append]

namespace Store

variable {s t : Store} {C : Hole} {f g : Forest}

/-! ## The stack -/

/-- The paragraphs right below a parent, all at one depth. -/
def layer (s : Store) (parent : Option Int) (depth : Nat) : List (Paragraph × Nat) :=
  (s.children parent).map fun p => (p, depth)

/-- Working off a stack: its top is given out, and the children of that paragraph are put on the
stack instead, the first of them at the top. -/
inductive Yields (s : Store) : List (Paragraph × Nat) → List (Paragraph × Nat) → Prop where
  | done : Yields s [] []
  | next {p : Paragraph} {depth : Nat} {stack out : List (Paragraph × Nat)} :
    Yields s (s.layer (some p.id) (depth + 1) ++ stack) out →
      Yields s ((p, depth) :: stack) ((p, depth) :: out)

theorem Yields.unique {stack out out' : List (Paragraph × Nat)} (h : s.Yields stack out)
    (h' : s.Yields stack out') : out = out' := by
  induction h generalizing out' with
  | done =>
    cases h'
    rfl
  | next _ ih =>
    cases h' with
    | next h' => rw [ih h']

/-- Trees on the stack are worked off in document order, before what is below them on it. -/
theorem Shows.yields (h : s.Shows (C.plug g)) {l g' : Forest} (hg : g = l ++ g') (depth : Nat)
    {stack out : List (Paragraph × Nat)} (hs : s.Yields stack out) :
    s.Yields
      ((g'.heads s.documentId C.parent (1 + l.width)).map (fun p => (p, depth)) ++ stack)
      (walkForest depth (g'.nodes s.documentId C.parent (1 + l.width)) ++ out) := by
  induction g' generalizing C g l depth stack out with
  | nil => exact hs
  | cons id fields below rest ih₁ ih₂ =>
    subst hg
    have hrest := ih₂ h.past (l := l ++ tree id fields below) rfl depth hs
    rw [one_add_width_append_tree] at hrest
    have hbelow := ih₁ h.under (l := nil) rfl (depth + 1) hrest
    rw [heads, nodes, walkForest, Node.walk, List.map_cons, List.cons_append, List.cons_append,
      List.cons_append, List.append_assoc]
    refine .next ?_
    unfold layer
    rw [row_id, show s.children (some id) = _ from h.under.children_eq]
    exact hbelow

/-- The children of a place, put on an empty stack, give the walk through all that is in it. -/
theorem Shows.yields_iff (h : s.Shows (C.plug g)) (depth : Nat) {out : List (Paragraph × Nat)} :
    s.Yields (s.layer C.parent depth) out ↔
      out = walkForest depth (g.nodes s.documentId C.parent 1) := by
  have hy := h.yields (l := nil) rfl depth .done
  rw [List.append_nil, List.append_nil] at hy
  have hlayer : s.layer C.parent depth =
      (g.heads s.documentId C.parent 1).map fun p => (p, depth) := by
    unfold layer
    rw [h.children_eq]
  rw [hlayer]
  refine ⟨fun ho => ho.unique hy, ?_⟩
  rintro rfl
  exact hy

/-! ## Stretches of the walk -/

/-- A paragraph in the walk, with what is below it right behind it: the same that a walk gives out
which begins below the paragraph. -/
structure Segment (s : Store) (p : Paragraph) (depth : Nat)
    (before below after : List (Paragraph × Nat)) : Prop where
  walk_eq : s.walk = before ++ (p, depth) :: below ++ after
  depth_eq : s.depth p = .ok depth
  mem_iff : ∀ q, q ∈ below.map Prod.fst ↔ Below s.paragraphs p.id q
  walkBelow_eq : s.walkBelow (some p.id) = .ok below
  yields_iff : ∀ out, s.Yields (s.layer (some p.id) (depth + 1)) out ↔ out = below

theorem Shows.walkBelow_eq {l b r : Forest} {id : Int} {fields : Fields}
    (h : s.Shows (C.plug (l ++ cons id fields b r))) :
    s.walkBelow (some id) = .ok (walkForest (C.depth + 1) (b.nodes s.documentId (some id) 1)) := by
  unfold walkBelow
  rw [show s.below (some id) = _ from h.under.below_eq]
  simp only [h.get_plug, h.depth_eq (row_parent ..), bind, Except.bind]
  rfl

theorem Shows.mem_walkForest_iff {l b r : Forest} {id : Int} {fields : Fields}
    (h : s.Shows (C.plug (l ++ cons id fields b r))) (depth : Nat) {q : Paragraph} :
    q ∈ (walkForest depth (b.nodes s.documentId (some id) 1)).map Prod.fst ↔
      Below s.paragraphs id q := by
  rw [h.below_iff, ← Multiset.mem_coe, map_fst_walkForest_nodes]
  show q ∈ b.rows s.documentId (some id) ↔ _
  constructor
  · intro hq
    have hmem : q ∈ s.paragraphs := h.under.mem_plug_iff.2 (.inr hq)
    exact ⟨hmem, id_mem_of_mem_rows hq⟩
  · rintro ⟨hmem, hid⟩
    exact (h.under.mem_rows_iff hmem).2 hid

theorem Shows.segment (h : s.Shows f) {p : Paragraph} (hp : p ∈ s.paragraphs) :
    ∃ depth before below after, s.Segment p depth before below after := by
  obtain ⟨C, l, b, r, rfl, hrow⟩ := h.exists_place hp
  rw [Int.add_comm] at hrow
  obtain ⟨before, after, hwalk⟩ :=
    C.exists_walkForest_plug s.documentId (l ++ cons p.id p.fields b r)
  refine ⟨C.depth, before ++ walkForest C.depth (l.nodes s.documentId C.parent 1),
    walkForest (C.depth + 1) (b.nodes s.documentId (some p.id) 1),
    walkForest C.depth (r.nodes s.documentId C.parent (1 + l.width + 1)) ++ after, ?_,
    h.depth_eq (by rw [hrow, row_parent]), fun q => h.mem_walkForest_iff _, h.walkBelow_eq,
    fun out => h.under.yields_iff (C.depth + 1)⟩
  unfold walk
  rw [h.forest_eq, hwalk, nodes_append, walkForest_append, nodes, walkForest, Node.walk, ← hrow]
  simp only [List.append_assoc, List.cons_append]

/-! ## Depths and order -/

theorem Shows.nodup_documentOrder (h : s.Shows f) : (s.documentOrder.map (·.id)).Nodup := by
  rw [h.map_id_documentOrder, map_id_lines]
  exact h.nodup

theorem map_id_walk (s : Store) : s.documentOrder.map (·.id) = s.walk.map (·.1.id) := by
  unfold documentOrder
  rw [List.map_map]
  rfl

/-- Every paragraph in the walk has its own depth. -/
theorem Shows.depth_of_mem_walk (h : s.Shows f) {e : Paragraph × Nat} (he : e ∈ s.walk) :
    s.depth e.1 = .ok e.2 := by
  obtain ⟨depth, before, below, after, hseg⟩ := h.segment (mem_of_mem_walk e he)
  have hmem : (e.1, depth) ∈ s.walk := by simp [hseg.walk_eq]
  have hn := h.nodup_documentOrder
  rw [map_id_walk] at hn
  have hdepth : e.2 = depth := congrArg Prod.snd (List.inj_on_of_nodup_map hn he hmem rfl)
  rw [hdepth]
  exact hseg.depth_eq

theorem Segment.precedes {p q : Paragraph} {depth : Nat}
    {before below after : List (Paragraph × Nat)} (h : s.Segment p depth before below after)
    (hq : Below s.paragraphs p.id q) : s.Precedes p.id q.id := by
  obtain ⟨e, he, rfl⟩ := List.mem_map.1 ((h.mem_iff q).2 hq)
  obtain ⟨as, bs, rfl⟩ := List.append_of_mem he
  refine ⟨(before ++ (p, depth) :: as).map (·.1.id), (bs ++ after).map (·.1.id), ?_, by simp⟩
  rw [map_id_walk, h.walk_eq]
  simp

theorem Shows.precedes_of_position_lt (h : s.Shows f) {p q : Paragraph} (hp : p ∈ s.paragraphs)
    (hq : q ∈ s.paragraphs) (hparent : p.parent = q.parent) (hlt : p.position < q.position) :
    s.Precedes p.id q.id := by
  obtain ⟨C, l, b, r, rfl, hrow⟩ := h.exists_place hq
  have hposition : q.position = l.width + 1 := by rw [hrow, row_position]
  have hmem := h.mem_heads_of_parent hp (hparent.trans (by rw [hrow, row_parent]))
  rw [heads_append] at hmem
  have hid : p.id ∈ l.ids := by
    rcases List.mem_append.1 hmem with hmem | hmem
    · exact (mem_heads hmem).2.1
    · have := (mem_heads hmem).2.2.1
      omega
  refine ⟨(C.before ++ l.lines C.depth).map Line.id,
    (b.lines (C.depth + 1) ++ (r.lines C.depth ++ C.after)).map Line.id, ?_, ?_⟩
  · rw [h.map_id_documentOrder, lines_around]
    simp
  · rw [List.map_append, map_id_lines]
    exact List.mem_append_right _ hid

/-! ## Places from depths -/

theorem map_mark_walk (s : Store) :
    s.walk.map (fun e => (e.1.id, e.2)) = s.lines.map Line.mark := by
  unfold lines
  rw [List.map_map]
  rfl

theorem Shows.map_place (h : s.Shows f) :
    ((s.paragraphs.map Paragraph.place : List (Int × Option Int × Int)) :
      Multiset (Int × Option Int × Int)) = (f.bare.rows "" none).map Paragraph.place := by
  rw [← Multiset.map_coe, h.rows_eq, map_place_rows]

/-- Walks with the same ids and depths are walks through the same places. -/
theorem Shows.place_perm (h : s.Shows f) (h' : t.Shows g)
    (hw : s.walk.map (fun e => (e.1.id, e.2)) = t.walk.map fun e => (e.1.id, e.2)) :
    (s.paragraphs.map Paragraph.place).Perm (t.paragraphs.map Paragraph.place) := by
  rw [map_mark_walk, map_mark_walk, h.lines_eq, h'.lines_eq] at hw
  rw [← Multiset.coe_eq_coe, h.map_place, h'.map_place, bare_eq_of_marks hw]

/-- The walk is what working off the stack ends with, from the top level on. It gives out every
paragraph once, as deep as its lineage is long, parents before what is below them and siblings by
their positions. What is below a paragraph is one stretch of it, and what a walk gives out that
begins there. The ids and the depths that it tells determine where every paragraph stands. -/
theorem walk_enumerates (h : s.Reachable) :
    (∀ out, s.Yields (s.layer none 1) out ↔ out = s.walk) ∧
    s.documentOrder.Perm s.paragraphs ∧ (s.documentOrder.map (·.id)).Nodup ∧
    (∀ e ∈ s.walk, ∃ ps, s.lineage e.1 = .ok ps ∧ e.2 = ps.length) ∧
    (∀ p ∈ s.paragraphs, ∀ q, Below s.paragraphs p.id q → s.Precedes p.id q.id) ∧
    (∀ p ∈ s.paragraphs, ∀ q ∈ s.paragraphs, p.parent = q.parent → p.position < q.position →
      s.Precedes p.id q.id) ∧
    (∀ p ∈ s.paragraphs, ∃ depth before below after, s.Segment p depth before below after) ∧
    ∀ t : Store, t.Reachable →
      s.walk.map (fun e => (e.1.id, e.2)) = t.walk.map (fun e => (e.1.id, e.2)) →
      ∀ p ∈ s.paragraphs, ∃ q ∈ t.paragraphs,
        q.id = p.id ∧ q.parent = p.parent ∧ q.position = p.position := by
  obtain ⟨f, hf⟩ := h.exists_shows
  refine ⟨fun out => ?_, hf.documentOrder_perm, hf.nodup_documentOrder, fun e he => ?_,
    fun p hp q hq => ?_, fun p hp q hq => hf.precedes_of_position_lt hp hq,
    fun p hp => hf.segment hp, fun t ht hw p hp => ?_⟩
  · unfold walk
    rw [hf.forest_eq]
    exact Shows.yields_iff (C := .top) hf 1
  · exact depth_eq_ok_iff.1 (hf.depth_of_mem_walk he)
  · obtain ⟨depth, before, below, after, hseg⟩ := hf.segment hp
    exact hseg.precedes hq
  · obtain ⟨g, hg⟩ := ht.exists_shows
    have hmem := (hf.place_perm hg hw).mem_iff.1 (List.mem_map_of_mem hp)
    obtain ⟨q, hq, hplace⟩ := List.mem_map.1 hmem
    obtain ⟨hid, hparent, hposition⟩ : q.id = p.id ∧ q.parent = p.parent ∧ q.position = p.position :=
      by simpa [Paragraph.place] using hplace
    exact ⟨q, hq, hid, hparent, hposition⟩

/-- The same places as in the sample, come to by an indentation, with other texts in a database. -/
def indented : Store :=
  (Session.run { store := { medium := .database, documentId := "e" } }
    [.edit (.append { body := "x" } none), .edit (.append { body := "y" } none),
      .edit (.append { body := "z" } none), .edit (.indent 2)]).store

theorem walk_enumerates_indented :
    (∃ out, sample.Yields (sample.layer none 1) out ∧ out.map (·.1.id) = [1, 2, 3]) ∧
    sample.Precedes 1 2 ∧ sample.Precedes 1 3 ∧
    ∀ p ∈ sample.paragraphs, ∃ q ∈ indented.paragraphs,
      q.id = p.id ∧ q.parent = p.parent ∧ q.position = p.position := by
  have hindented : indented.Reachable :=
    ⟨_, _, fresh_empty .database "e", by simp [Event.Holdable, Edit.Holdable], rfl, rfl⟩
  have ha : row "d" none 1 1 { body := "a" } ∈ sample.paragraphs := by decide
  have hb : row "d" (some 1) 1 2 { body := "b" } ∈ sample.paragraphs := by decide
  have hc : row "d" none 2 3 { body := "c" } ∈ sample.paragraphs := by decide
  obtain ⟨hyields, -, -, -, hbelow, hsiblings, -, hplaces⟩ := walk_enumerates reachable_sample
  exact ⟨⟨_, (hyields _).2 rfl, by decide⟩, hbelow _ ha _ (.child hb rfl),
    hsiblings _ ha _ hc rfl (by decide), hplaces indented hindented (by decide)⟩

end Store

end Bylaws
