import Bylaws.Proofs.Ranks
import Bylaws.Proofs.Rendering.Portions
import Mathlib.Data.List.SplitBy

/-!
# Items are counted and headings are grouped

The portions of a page, taken for the siblings of one place (`Portion.Counts`): there is an item
for each numbered sibling, in order, with its rank as the value, and one heading or group of
headings for each maximal run of headings that continue one another (`headingRuns`). The ranks of
the numbered siblings are one, two, three and so on, so the same holds of the items in a page,
however many lists they are in (`Store.items_counted`).
-/

namespace Bylaws

open Forest

/-! ## Runs of headings -/

/-- Whether a heading goes on with the heading before it. -/
def Paragraph.continues (p q : Paragraph) : Bool := p.isHeading && (q.isHeading && q.continuation)

/-- The runs of headings among siblings, as long as each heading continues the one before it. -/
def headingRuns (ps : List Paragraph) : List (List Paragraph) :=
  (ps.splitBy Paragraph.continues).filter fun run => run.any (·.isHeading)

/-- A list that is split into runs, with an entry in front that the first run goes on with. -/
theorem splitBy_cons_of_rel {α : Type} {r : α → α → Bool} {a b : α} (h : r a b = true)
    (l : List α) : ∃ run runs, (b :: l).splitBy r = (b :: run) :: runs ∧
      (a :: b :: l).splitBy r = (a :: b :: run) :: runs := by
  obtain ⟨hflat, hne, hchain, hbreak⟩ := List.splitBy_eq_iff.1 (rfl : (b :: l).splitBy r = _)
  cases hs : (b :: l).splitBy r with
  | nil => simp at hs
  | cons first runs =>
    rw [hs] at hflat hne hchain hbreak
    cases first with
    | nil => simp at hne
    | cons c run =>
      obtain ⟨rfl, hl⟩ := List.cons.inj hflat
      refine ⟨run, runs, rfl, List.splitBy_eq_iff.2 ⟨by rw [hflat]; rfl, ?_, ?_, ?_⟩⟩
      · simpa using hne
      · rw [List.forall_mem_cons] at hchain ⊢
        exact ⟨List.isChain_cons_cons.2 ⟨h, hchain.1⟩, hchain.2⟩
      · rw [List.isChain_cons] at hbreak ⊢
        simpa using hbreak

section Runs

variable {p q : Paragraph} {ps : List Paragraph}

theorem headingRuns_cons_of_not_continues (h : ∀ q ∈ ps.head?, p.continues q = false) :
    headingRuns (p :: ps) = if p.isHeading then [p] :: headingRuns ps else headingRuns ps := by
  have hsplit : (p :: ps).splitBy Paragraph.continues =
      [p] :: ps.splitBy Paragraph.continues := by
    rw [← List.singleton_append, List.splitBy_append (by simpa using h)]
    rfl
  unfold headingRuns
  rw [hsplit, List.filter_cons]
  simp

theorem headingRuns_cons_of_continues (h : p.continues q = true) {run : List Paragraph}
    {runs : List (List Paragraph)} (hq : headingRuns (q :: ps) = run :: runs) :
    headingRuns (p :: q :: ps) = (p :: run) :: runs := by
  obtain ⟨run', runs', hs, hs'⟩ := splitBy_cons_of_rel h ps
  have hh : p.isHeading = true ∧ q.isHeading = true := by
    simp only [Paragraph.continues, Bool.and_eq_true] at h
    exact ⟨h.1, h.2.1⟩
  unfold headingRuns at hq ⊢
  rw [hs, List.filter_cons_of_pos (by simp [hh.2])] at hq
  obtain ⟨rfl, rfl⟩ := List.cons.inj hq
  rw [hs', List.filter_cons_of_pos (by simp [hh.1])]

end Runs

/-! ## Portions of a place -/

namespace Portion

/-- The paragraph of an item for a paragraph below `scope`, with the value of the item. -/
def item? (scope : Option Int) : Portion → Option (Paragraph × Nat)
  | item n x => if x.paragraph.parent = scope then some (x.paragraph, n) else none
  | _ => none

/-- The headings of a portion of headings below `scope`. -/
def run? (scope : Option Int) : Portion → Option (List Paragraph)
  | headings first rest =>
    if first.paragraph.parent = scope then some ((first :: rest).map (·.paragraph)) else none
  | _ => none

/-- The portions for the paragraphs below `scope`, given those of them that are shown: an item
for each of them that is numbered, and a heading or a group for each run of headings. -/
structure Counts (choices : Choices) (rank : Paragraph → Option Nat) (scope : Option Int)
    (shown : List Paragraph) (ps : List Portion) : Prop where
  items : ps.filterMap (item? scope) =
    (shown.filter (·.isNumbered choices)).map fun p => (p, (rank p).getD 0)
  runs : ps.filterMap (run? scope) = headingRuns shown

variable {choices : Choices} {rank : Paragraph → Option Nat} {scope : Option Int}

theorem counts_nil : Counts choices rank scope [] [] := ⟨rfl, rfl⟩

/-- Portions of other places may stand around. -/
theorem Counts.append_left {shown : List Paragraph} {ps qs : List Portion}
    (h : Counts choices rank scope shown ps) (hq : Counts choices rank scope [] qs) :
    Counts choices rank scope shown (qs ++ ps) where
  items := by
    rw [List.filterMap_append, hq.items, h.items]
    rfl
  runs := by
    rw [List.filterMap_append, hq.runs, h.runs]
    rfl

theorem Counts.append_right {shown : List Paragraph} {ps qs : List Portion}
    (h : Counts choices rank scope shown ps) (hq : Counts choices rank scope [] qs) :
    Counts choices rank scope shown (ps ++ qs) where
  items := by
    rw [List.filterMap_append, hq.items, h.items]
    exact List.append_nil _
  runs := by
    rw [List.filterMap_append, hq.runs, h.runs]
    exact List.append_nil _

theorem counts_of_forall {ps : List Portion}
    (h : ∀ x ∈ ps.flatMap passages, x.paragraph.parent ≠ scope) :
    Counts choices rank scope [] ps := by
  have hnone : ∀ p ∈ ps, item? scope p = none ∧ run? scope p = none := by
    intro p hp
    have hx : ∀ x ∈ p.passages, x.paragraph.parent ≠ scope := fun x hx =>
      h x (List.mem_flatMap.2 ⟨p, hp, hx⟩)
    cases p with
    | headings first rest => exact ⟨rfl, if_neg (hx first List.mem_cons_self)⟩
    | item n x => exact ⟨if_neg (hx x List.mem_cons_self), rfl⟩
    | continuation x => exact ⟨rfl, rfl⟩
  exact ⟨List.filterMap_eq_nil_iff.2 fun p hp => (hnone p hp).1,
    List.filterMap_eq_nil_iff.2 fun p hp => (hnone p hp).2⟩

section Join

variable {x : Passage} {below ps : List Portion} {shown : List Paragraph}

theorem Counts.cons_single (h : Counts choices rank scope shown ps)
    (hi : x.paragraph.isIncluded choices = true) (hx : x.paragraph.parent = scope)
    (hs : ∀ q ∈ shown.head?, x.paragraph.continues q = false) :
    Counts choices rank scope (x.paragraph :: shown) (single rank x :: ps) where
  items := by
    rw [List.filterMap_cons, h.items]
    unfold single
    cases hh : x.paragraph.isHeading <;> cases hc : x.paragraph.continuation <;>
      simp [item?, Paragraph.isNumbered, hh, hc, hi, hx]
  runs := by
    rw [List.filterMap_cons, h.runs, headingRuns_cons_of_not_continues hs]
    unfold single
    cases hh : x.paragraph.isHeading <;> cases hc : x.paragraph.continuation <;>
      simp [run?, hx]

theorem filterMap_item_headings (first : Passage) (rest : List Passage) :
    (headings first rest :: ps).filterMap (item? scope) = ps.filterMap (item? scope) := rfl

theorem filterMap_run_headings {first : Passage} {rest : List Passage}
    (h : first.paragraph.parent = scope) :
    (headings first rest :: ps).filterMap (run? scope) =
      (first :: rest).map (·.paragraph) :: ps.filterMap (run? scope) :=
  List.filterMap_cons_some (f := run? scope) (if_pos h)

theorem filterMap_run_headings_other {first : Passage} {rest : List Passage}
    (h : first.paragraph.parent ≠ scope) :
    (headings first rest :: ps).filterMap (run? scope) = ps.filterMap (run? scope) :=
  List.filterMap_cons_none (f := run? scope) (if_neg h)

/-- A heading that the next one continues makes the run longer. -/
theorem Counts.cons_headings {first : Passage} {rest : List Passage}
    (h : Counts choices rank scope (first.paragraph :: shown) (headings first rest :: ps))
    (hb : Counts choices rank scope [] below) (hx : x.paragraph.parent = scope)
    (hf : first.paragraph.parent = scope) (hc : x.paragraph.continues first.paragraph = true) :
    Counts choices rank scope (x.paragraph :: first.paragraph :: shown)
      (headings x (first :: rest) :: (below ++ ps)) where
  items := by
    have hn : x.paragraph.isNumbered choices = false := by
      simp only [Paragraph.continues, Bool.and_eq_true] at hc
      simp [Paragraph.isNumbered, hc.1]
    have hitems := h.items
    rw [filterMap_item_headings] at hitems
    rw [filterMap_item_headings, List.filterMap_append, hb.items, hitems]
    simp [hn]
  runs := by
    have hruns := h.runs
    rw [filterMap_run_headings hf] at hruns
    rw [filterMap_run_headings hx, List.filterMap_append, hb.runs,
      headingRuns_cons_of_continues hc hruns.symm]
    rfl

/-- A longer run of another place. -/
theorem Counts.cons_headings_other {first : Passage} {rest : List Passage}
    (h : Counts choices rank scope shown (below ++ headings first rest :: ps))
    (hx : x.paragraph.parent ≠ scope) (hf : first.paragraph.parent ≠ scope) :
    Counts choices rank scope shown (headings x (first :: rest) :: (below ++ ps)) where
  items := by
    have hitems := h.items
    rw [List.filterMap_append, filterMap_item_headings, ← List.filterMap_append] at hitems
    rw [filterMap_item_headings, hitems]
  runs := by
    have hruns := h.runs
    rw [List.filterMap_append, filterMap_run_headings_other hf, ← List.filterMap_append] at hruns
    rw [filterMap_run_headings_other hx, hruns]

end Join

end Portion

namespace Scene

open Portion

variable {choices : Choices} {rank : Paragraph → Option Nat} {scope : Option Int}

/-- The paragraphs of the topmost passages. -/
def tops : Scene → List Paragraph
  | nil => []
  | cons x _ rest => x.paragraph :: rest.tops

/-- The passages that are not topmost. -/
def inner : Scene → List Passage
  | nil => []
  | cons _ below rest => below.passages ++ rest.inner

/-- A scene whose first passage is a heading begins with a portion of headings. -/
theorem exists_headings {x : Passage} (hx : x.paragraph.isHeading = true) (B R : Scene) :
    ∃ rest after, (cons x B R).portions rank = headings x rest :: after := by
  rcases @join_of_isHeading rank x (B.portions rank) (R.portions rank) hx with
    h | ⟨first, rest, after, -, -, h⟩
  · exact ⟨_, _, h⟩
  · exact ⟨_, _, h⟩

/-- A portion of headings at the beginning begins with the first passage. -/
theorem eq_of_portions_eq_headings {x first : Passage} {rest : List Passage}
    {after : List Portion} {B R : Scene}
    (h : (cons x B R).portions rank = headings first rest :: after) :
    first = x ∧ x.paragraph.isHeading = true := by
  cases hx : x.paragraph.isHeading with
  | false =>
    have halone : (cons x B R).portions rank =
        single rank x :: (B.portions rank ++ R.portions rank) :=
      join_of_alone (by simp [hx])
    exact absurd (List.cons.inj (halone.symm.trans h)).1 (single_ne_headings hx)
  | true =>
    obtain ⟨rest', after', h'⟩ := @exists_headings rank x hx B R
    obtain ⟨hportion, -⟩ := List.cons.inj (h'.symm.trans h)
    exact ⟨(Portion.headings.inj hportion).1.symm, rfl⟩

/-- What the first passage of a scene is laid out as: a portion by itself, or one with the
headings that continue it. -/
theorem portions_cons_cases (rank : Paragraph → Option Nat) (x : Passage) (B R : Scene) :
    ((∀ q ∈ R.tops.head?, x.paragraph.continues q = false) ∧
      (cons x B R).portions rank = single rank x :: (B.portions rank ++ R.portions rank)) ∨
    ∃ y more rest after, R.tops = y.paragraph :: more ∧ x.paragraph.continues y.paragraph = true ∧
      R.portions rank = headings y rest :: after ∧
      (cons x B R).portions rank = headings x (y :: rest) :: (B.portions rank ++ after) := by
  cases R with
  | nil => exact .inl ⟨by simp [tops], join_of_alone fun _ _ _ _ h => nomatch h⟩
  | cons y B' R' =>
    cases hc : x.paragraph.continues y.paragraph with
    | true =>
      have hall : x.paragraph.isHeading = true ∧ y.paragraph.isHeading = true ∧
          y.paragraph.continuation = true := by
        simpa [Paragraph.continues] using hc
      obtain ⟨rest, after, hR⟩ := @exists_headings rank y hall.2.1 B' R'
      refine .inr ⟨y, R'.tops, rest, after, rfl, hc, hR, ?_⟩
      rw [portions, hR, join, if_pos (by simp [hall])]
    | false =>
      refine .inl ⟨by simpa [tops] using hc, join_of_alone fun hx first rest after hR => ?_⟩
      obtain ⟨rfl, hy⟩ := eq_of_portions_eq_headings hR
      simpa [Paragraph.continues, hx, hy] using hc

theorem counts_nil_of_forall {S : Scene} (h : ∀ x ∈ S.passages, x.paragraph.parent ≠ scope) :
    Counts choices rank scope [] (S.portions rank) :=
  counts_of_forall fun x hx => h x ((S.passages_portions_perm rank).mem_iff.1 hx)

/-- The portions for the topmost passages of a scene. -/
theorem counts_tops {S : Scene} (ht : ∀ p ∈ S.tops, p.parent = scope ∧ p.isIncluded choices = true)
    (hi : ∀ x ∈ S.inner, x.paragraph.parent ≠ scope) :
    Counts choices rank scope S.tops (S.portions rank) := by
  induction S with
  | nil => exact counts_nil
  | cons x B R _ ih =>
    rw [tops, List.forall_mem_cons] at ht
    rw [inner, List.forall_mem_append] at hi
    have hb : Counts choices rank scope [] (B.portions rank) := counts_nil_of_forall hi.1
    have hr := ih ht.2 hi.2
    rcases portions_cons_cases rank x B R with
      ⟨halone, hp⟩ | ⟨y, more, rest, after, htops, hc, hR, hp⟩
    · rw [hp]
      exact (hr.append_left hb).cons_single ht.1.2 ht.1.1 halone
    · rw [tops, htops, hp]
      rw [htops] at hr ht
      rw [hR] at hr
      exact hr.cons_headings hb ht.1.1 (ht.2 y.paragraph List.mem_cons_self).1 hc

/-- The portions of another place than that of the topmost passages. -/
theorem counts_cons_other {x : Passage} {B R : Scene} {shown : List Paragraph}
    (h : Counts choices rank scope shown (B.portions rank ++ R.portions rank))
    (hx : x.paragraph.parent ≠ scope) (ht : ∀ p ∈ R.tops, p.parent ≠ scope) :
    Counts choices rank scope shown ((cons x B R).portions rank) := by
  rcases portions_cons_cases rank x B R with ⟨-, hp⟩ | ⟨y, more, rest, after, htops, -, hR, hp⟩
  · rw [hp]
    have hone : Counts choices rank scope [] [single rank x] :=
      counts_of_forall (by simpa [passages_single] using hx)
    exact h.append_left hone
  · rw [hp]
    rw [hR] at h
    exact h.cons_headings_other hx (ht y.paragraph (by simp [htops]))

/-! ## Scenes of a forest -/

/-- A scene shows the nodes of a placed forest that are not left out. -/
inductive Depicts (choices : Choices) (doc : String) : Option Int → Int → Forest → Scene → Prop where
  | nil {parent : Option Int} {k : Int} : Depicts choices doc parent k .nil .nil
  | omitted {parent : Option Int} {k id : Int} {fields : Fields} {below rest : Forest} {R : Scene} :
      fields.isIncluded choices = false → Depicts choices doc parent (k + 1) rest R →
      Depicts choices doc parent k (.cons id fields below rest) R
  | shown {parent : Option Int} {k id : Int} {fields : Fields} {below rest : Forest} {B R : Scene}
      (text : String) :
      fields.isIncluded choices = true → Depicts choices doc (some id) 1 below B →
      Depicts choices doc parent (k + 1) rest R →
      Depicts choices doc parent k (.cons id fields below rest)
        (.cons ⟨row doc parent k id fields, text⟩ B R)

variable {doc : String} {parent : Option Int} {k : Int} {f : Forest} {S : Scene}

theorem Depicts.ended (h : Depicts choices doc parent k f S) :
    Depicts choices doc parent k f S.ended := by
  induction h with
  | nil => exact .nil
  | omitted hi _ ih => exact .omitted hi ih
  | shown text hi hB _ _ ih => exact .shown _ hi hB ih

/-- The topmost passages are the topmost nodes that are not left out. -/
theorem Depicts.tops_eq (h : Depicts choices doc parent k f S) :
    S.tops = (f.heads doc parent k).filter (·.isIncluded choices) := by
  induction h with
  | nil => rfl
  | omitted hi _ ih => rw [ih, heads, List.filter_cons_of_neg (by simpa [isIncluded_row] using hi)]
  | shown text hi _ _ _ ih =>
    rw [tops, ih, heads, List.filter_cons_of_pos (by simpa [isIncluded_row] using hi)]

theorem Depicts.mem_passages (h : Depicts choices doc parent k f S) {x : Passage}
    (hx : x ∈ S.passages) :
    x.paragraph.id ∈ f.ids ∧
      (x.paragraph.parent = parent ∨ ∃ id ∈ f.ids, x.paragraph.parent = some id) := by
  induction h with
  | nil => exact absurd hx List.not_mem_nil
  | omitted _ _ ih =>
    obtain ⟨hid, hp⟩ := ih hx
    simp only [ids_cons, List.mem_cons, List.mem_append]
    refine ⟨.inr (.inr hid), hp.imp_right ?_⟩
    rintro ⟨i, hi, hp⟩
    exact ⟨i, .inr (.inr hi), hp⟩
  | shown text _ _ _ ih₁ ih₂ =>
    simp only [ids_cons, List.mem_cons, List.mem_append]
    simp only [passages, List.mem_cons, List.mem_append] at hx
    rcases hx with rfl | hx | hx
    · exact ⟨.inl rfl, .inl rfl⟩
    · obtain ⟨hid, hp⟩ := ih₁ hx
      refine ⟨.inr (.inl hid), .inr ?_⟩
      rcases hp with hp | ⟨i, hi, hp⟩
      · exact ⟨_, .inl rfl, hp⟩
      · exact ⟨i, .inr (.inl hi), hp⟩
    · obtain ⟨hid, hp⟩ := ih₂ hx
      refine ⟨.inr (.inr hid), hp.imp_right ?_⟩
      rintro ⟨i, hi, hp⟩
      exact ⟨i, .inr (.inr hi), hp⟩

theorem Depicts.mem_inner (h : Depicts choices doc parent k f S) {x : Passage}
    (hx : x ∈ S.inner) : ∃ id ∈ f.ids, x.paragraph.parent = some id := by
  induction h with
  | nil => exact absurd hx List.not_mem_nil
  | omitted _ _ ih =>
    obtain ⟨i, hi, hp⟩ := ih hx
    exact ⟨i, by simp [hi], hp⟩
  | shown text _ hB _ _ ih =>
    rcases List.mem_append.1 hx with hx | hx
    · rcases (hB.mem_passages hx).2 with hp | ⟨i, hi, hp⟩
      · exact ⟨_, by simp, hp⟩
      · exact ⟨i, by simp [hi], hp⟩
    · obtain ⟨i, hi, hp⟩ := ih hx
      exact ⟨i, by simp [hi], hp⟩

/-- The portions for the topmost nodes of a forest below a node that is not in it. -/
theorem Depicts.counts_tops (h : Depicts choices doc parent k f S)
    (hparent : ∀ id ∈ f.ids, parent ≠ some id) :
    Counts choices rank parent ((f.heads doc parent k).filter (·.isIncluded choices))
      (S.portions rank) := by
  rw [← h.tops_eq]
  refine Scene.counts_tops (fun p hp => ?_) fun x hx he => ?_
  · rw [h.tops_eq, List.mem_filter] at hp
    exact ⟨(mem_heads hp.1).1, hp.2⟩
  · obtain ⟨id, hid, hp⟩ := h.mem_inner hx
    exact hparent id hid (he.symm.trans hp)

theorem Depicts.counts_none (h : Depicts choices doc parent k f S) {id : Int}
    (hparent : parent ≠ some id) (hid : id ∉ f.ids) :
    Counts choices rank (some id) [] (S.portions rank) := by
  refine counts_nil_of_forall fun x hx he => ?_
  rcases (h.mem_passages hx).2 with hp | ⟨i, hi, hp⟩
  · exact hparent (hp.symm.trans he)
  · exact hid (Option.some.inj (hp.symm.trans he) ▸ hi)

end Scene

/-- The ids of a node, of the nodes below it and of the trees after it are distinct, and the place
is below none of these. -/
theorem Hole.distinct_at {C : Hole} {l below rest : Forest} {id : Int} {fields : Fields}
    (h : (C.plug (l ++ cons id fields below rest)).ids.Nodup) :
    (∀ i ∈ (cons id fields below rest).ids, C.parent ≠ some i) ∧
      id ∉ below.ids ∧ id ∉ rest.ids ∧ below.ids.Disjoint rest.ids := by
  have hids := nodup_around h
  rw [ids_append] at hids
  have hnode := hids.of_append_right.of_append_right
  rw [ids_cons, List.nodup_cons, List.mem_append, not_or] at hnode
  refine ⟨fun i hi he => ?_, hnode.1.1, hnode.1.2, List.disjoint_of_nodup_append hnode.2⟩
  exact List.disjoint_of_nodup_append hids (mem_ids_of_parent he) (List.mem_append_right _ hi)

namespace Store

variable {s : Store} {v : View} {choices : Choices}

theorem depicts_sceneOf (f : Forest) (doc : String) (parent : Option Int) (k : Int) {S : Scene}
    (h : s.sceneOf v (foldForest (s.sceneBelow v) (f.nodes doc parent k)) = .ok S) :
    Scene.Depicts v.choices doc parent k f S := by
  induction f generalizing parent k S with
  | nil =>
    rw [nodes, foldForest] at h
    obtain rfl := Except.ok.inj h
    exact .nil
  | cons id fields below rest ih₁ ih₂ =>
    rw [nodes, foldForest] at h
    rcases sceneOf_cons_eq_ok h with ⟨hi, hS⟩ | ⟨text, B, R, hi, -, hB, hR, rfl⟩
    · exact .omitted hi (ih₂ parent (k + 1) hS)
    · obtain ⟨B', hB', rfl⟩ := sceneBelow_eq_ok hB
      have hbelow := ih₁ (some id) 1 hB'
      refine .shown text hi ?_ (ih₂ parent (k + 1) hR)
      split
      · exact hbelow.ended
      · exact hbelow

/-- The numbered paragraphs of a place with their ranks: one, two, three and so on. -/
theorem Shows.map_rank_children {f : Forest} (h : s.Shows f) (scope : Option Int) :
    (((s.children scope).filter (·.isNumbered choices)).map fun p =>
      (p, (s.rank? choices p).getD 0)) =
      ((s.children scope).filter (·.isNumbered choices)).zipIdx 1 := by
  have hranks := congrArg (List.map (·.getD 0)) (h.map_rank?_children choices scope)
  rw [List.map_map, List.map_map, List.countP_eq_length_filter] at hranks
  rw [List.zipIdx_eq_zip_range', ← List.map_id (List.range' 1 _)]
  exact List.map_prod_left_eq_zip.trans (congrArg _ hranks)

theorem filter_isNumbered_filter_isIncluded (ps : List Paragraph) :
    (ps.filter (·.isIncluded choices)).filter (·.isNumbered choices) =
      ps.filter (·.isNumbered choices) := by
  rw [List.filter_filter]
  refine List.filter_congr fun p _ => ?_
  cases hi : p.isIncluded choices <;> simp [Paragraph.isNumbered, hi]

/-- The portions for what is below a paragraph that is shown. -/
theorem Shows.counts_below {C : Hole} {f l : Forest} (h : s.Shows (C.plug (l ++ f))) {S : Scene}
    {rank : Paragraph → Option Nat}
    (hS : Scene.Depicts choices s.documentId C.parent (1 + l.width) f S) :
    ∀ x ∈ S.passages, Portion.Counts choices rank (some x.paragraph.id)
      ((s.children (some x.paragraph.id)).filter (·.isIncluded choices)) (S.portions rank) := by
  induction f generalizing C l S with
  | nil =>
    cases hS
    exact fun x hx => absurd hx List.not_mem_nil
  | cons id fields below rest ih₁ ih₂ =>
    have hrest : s.Shows (C.plug ((l ++ tree id fields below) ++ rest)) := by
      rwa [append_assoc, tree_append]
    have hbelow : s.Shows ((Hole.under l id fields rest C).plug (nil ++ below)) := h
    obtain ⟨hC, hid, hid', hdisjoint⟩ := Hole.distinct_at h.nodup
    simp only [ids_cons, List.forall_mem_cons, List.forall_mem_append] at hC
    obtain ⟨hCid, hCbelow, hCrest⟩ := hC
    cases hS with
    | omitted _ hR =>
      rw [← one_add_width_append_tree l id fields below] at hR
      exact ih₂ hrest hR
    | @shown _ _ _ _ _ _ B R text _ hB hR =>
      -- The portions for one place all stand below the node, or all after it.
      have hother : ∀ {i : Int} {shown : List Paragraph}, C.parent ≠ some i →
          Portion.Counts choices rank (some i) shown (B.portions rank ++ R.portions rank) →
          Portion.Counts choices rank (some i) shown
            ((Scene.cons ⟨row s.documentId C.parent (1 + l.width) id fields, text⟩ B R).portions
              rank) := by
        intro i shown hi hcounts
        refine Scene.counts_cons_other hcounts hi fun p hp => ?_
        rw [hR.tops_eq, List.mem_filter] at hp
        rwa [(mem_heads hp.1).1]
      intro x hx
      simp only [Scene.passages, List.mem_cons, List.mem_append] at hx
      rcases hx with rfl | hx | hx
      · have hchildren : s.children (some id) = below.heads s.documentId (some id) 1 :=
          hbelow.children_eq
        have hcounts : Portion.Counts choices rank (some id)
            ((s.children (some id)).filter (·.isIncluded choices)) (B.portions rank) := by
          rw [hchildren]
          exact hB.counts_tops fun i hi he => hid (Option.some.inj he ▸ hi)
        exact hother hCid (hcounts.append_right (hR.counts_none hCid hid'))
      · have hxid := (hB.mem_passages hx).1
        have hne := hCbelow _ hxid
        exact hother hne ((ih₁ hbelow hB x hx).append_right
          (hR.counts_none hne (hdisjoint hxid)))
      · have hxid := (hR.mem_passages hx).1
        have hne := hCrest _ hxid
        rw [← one_add_width_append_tree l id fields below] at hR
        have hnone : Portion.Counts choices rank (some x.paragraph.id) [] (B.portions rank) :=
          hB.counts_none (fun he => hid' (Option.some.inj he ▸ hxid)) fun hi => hdisjoint hi hxid
        exact hother hne ((ih₂ hrest hR x hx).append_left hnone)

/-- The top level is rendered, and what is below any paragraph that is shown. -/
def Renders (s : Store) (choices : Choices) (scope : Option Int) : Prop :=
  ∀ id, scope = some id → ∃ p ∈ s.documentOrder, p.id = id ∧ s.isShown choices p = true

/-- The portions of the whole document count in each place that is rendered. -/
theorem Shows.counts_portions {f : Forest} {S : Scene} {rank : Paragraph → Option Nat}
    {scope : Option Int} (hf : s.Shows f)
    (hS : Scene.Depicts choices s.documentId none 1 f S)
    (hshown : S.passages.map (·.paragraph) = s.documentOrder.filter (s.isShown choices))
    (h : s.Renders choices scope) :
    Portion.Counts choices rank scope ((s.children scope).filter (·.isIncluded choices))
      (S.portions rank) := by
  cases scope with
  | none =>
    have hchildren : s.children none = f.heads s.documentId none 1 :=
      hf.children_eq (C := .top)
    rw [hchildren]
    exact hS.counts_tops (by simp)
  | some id =>
    obtain ⟨p, hp, rfl, hpshown⟩ := h id rfl
    have hmem := List.mem_filter.2 ⟨hp, hpshown⟩
    rw [← hshown] at hmem
    obtain ⟨x, hx, rfl⟩ := List.mem_map.1 hmem
    exact hf.counts_below (C := .top) (l := nil) hS x hx

/-- The page of a document is a list of portions, in which every paragraph that is shown stands
once, with the text that it shows; it is orderly. In each place that is rendered there is an item
for each numbered paragraph, in order, and the values of the items are one, two, three and so on;
and there is a heading or a group of headings for each run of headings that continue one another,
as long as it goes. There is a page unless a number has to be written in a style that does not
exist. -/
theorem items_counted (h : s.Reachable) (v : View) :
    (∀ markup, s.html v = .ok markup →
      ∃ (content : List Html.Element) (portions : List Portion),
        markup = String.ofList (Html.Element.node .section_ content).write ∧
        Html.AllOrderly content ∧ Html.Lays content portions ∧
        ((portions.flatMap Portion.passages).map (·.paragraph)).Perm
          (s.documentOrder.filter (s.isShown v.choices)) ∧
        (∀ x ∈ portions.flatMap Portion.passages, x.ShownBy s v) ∧
        ∀ scope, s.Renders v.choices scope →
          portions.filterMap (Portion.item? scope) =
            ((s.children scope).filter (·.isNumbered v.choices)).zipIdx 1 ∧
          portions.filterMap (Portion.run? scope) =
            headingRuns ((s.children scope).filter (·.isIncluded v.choices))) ∧
    (v.Writable → ∃ markup, s.html v = .ok markup) := by
  obtain ⟨f, hf⟩ := h.exists_shows
  refine ⟨fun markup hmarkup => ?_, hf.exists_html⟩
  obtain ⟨e, he, hmarkup⟩ := Fault.bind_eq_ok hmarkup
  obtain rfl := Except.ok.inj hmarkup
  obtain ⟨content, hcontent, hpage⟩ := Fault.bind_eq_ok he
  obtain rfl := Except.ok.inj hpage
  obtain ⟨S, hS⟩ := (page_matches s v).exists_scene content hcontent
  have hlays := lays_page hS he
  have hperm := S.passages_portions_perm (s.rank? v.choices)
  have hshown := hf.map_paragraph_passages hS
  have hdepicts : Scene.Depicts v.choices s.documentId none 1 f S :=
    depicts_sceneOf (s := s) f s.documentId none 1 (hf.forest_eq ▸ hS)
  have hleveled : ∀ x ∈ S.passages, Html.Leveled x.paragraph := by
    intro x hx
    have hmem : x.paragraph ∈ s.documentOrder :=
      List.mem_of_mem_filter (hshown ▸ List.mem_map_of_mem hx)
    exact leveled_of_check (h.checked x.paragraph (hf.documentOrder_perm.mem_iff.1 hmem))
  refine ⟨content, S.portions (s.rank? v.choices), rfl,
    hlays.orderly fun x hx => hleveled x (hperm.mem_iff.1 hx), hlays, ?_,
    fun x hx => allShown_scene s v S hS x (hperm.mem_iff.1 hx), fun scope hscope => ?_⟩
  · rw [← hshown]
    exact hperm.map _
  · have hcounts : Portion.Counts v.choices (s.rank? v.choices) scope
        ((s.children scope).filter (·.isIncluded v.choices)) (S.portions (s.rank? v.choices)) :=
      hf.counts_portions hdepicts hshown hscope
    refine ⟨?_, hcounts.runs⟩
    rw [hcounts.items, filter_isNumbered_filter_isIncluded,
      hf.map_rank_children scope]

/-- Two numbered paragraphs with two headings between them that continue one another, and after
each part a paragraph that continues it. -/
def parted : Store :=
  (Session.run { store := { documentId := "d" } }
    [.edit (.append { body := "a" } none),
      .edit (.append { body := "A", heading := some 1 } none),
      .edit (.append { body := "B", heading := some 2, continuation := true } none),
      .edit (.append { body := "b", continuation := true } none),
      .edit (.append { body := "c" } none),
      .edit (.append { body := "d", continuation := true } none)]).store

theorem reachable_parted : parted.Reachable :=
  ⟨_, _, fresh_empty .memory "d", by simp [Event.Holdable, Edit.Holdable], rfl, rfl⟩

theorem items_counted_parted :
    ∃ (content : List Html.Element) (portions : List Portion),
      String.ofList (Html.Element.node .section_ content).write =
        "<section><ol><li value=\"1\">a</li></ol><hgroup><h1>A</h1><h2>B</h2></hgroup>" ++
        "<p>b</p><ol><li value=\"2\">c d</li></ol></section>" ∧
      Html.Lays content portions ∧
      (portions.filterMap (Portion.item? none)).map (fun e => (e.1.body, e.2)) =
        [("a", 1), ("c", 2)] ∧
      (portions.filterMap (Portion.run? none)).map (·.map (·.body)) = [["A", "B"]] := by
  have hhtml : parted.html {} =
      .ok ("<section><ol><li value=\"1\">a</li></ol><hgroup><h1>A</h1><h2>B</h2></hgroup>" ++
        "<p>b</p><ol><li value=\"2\">c d</li></ol></section>") := by cbv
  obtain ⟨hpage, hexists⟩ := items_counted reachable_parted {}
  obtain ⟨markup, hmarkup⟩ := hexists (.inl rfl)
  obtain ⟨content, portions, rfl, -, hlays, -, -, hcounts⟩ := hpage markup hmarkup
  obtain ⟨hitems, hruns⟩ := hcounts none (by simp [Renders])
  refine ⟨content, portions, Except.ok.inj (hmarkup.symm.trans hhtml), hlays, ?_, ?_⟩
  · rw [hitems]
    cbv
  · rw [hruns]
    cbv

end Store

end Bylaws
