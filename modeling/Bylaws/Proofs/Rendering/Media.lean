import Bylaws.Document
import Bylaws.Proofs.Forest.Media
import Bylaws.Proofs.Lookup

/-!
# Reading on either medium

Whatever is read of a document in memory is the same on a database (`Shows.readsAlike`), as long
as the ids that are asked for can be names on both. Most of it rests on the rows alone; only
looking up a paragraph by its id asks the medium, and so does the way up to the top level.
-/

namespace Bylaws.Store

open Forest

variable {s : Store} {f : Forest} {inside : Bool}

/-- A paragraph whose parent can be named on both media. -/
def Findable (s : Store) (p : Paragraph) : Prop := ∀ id, p.parent = some id → s.Nameable id

/-- All that can be read of two stores is the same. -/
structure ReadsAlike (s t : Store) : Prop where
  paragraphs_eq : t.paragraphs = s.paragraphs
  get_eq : ∀ id, s.Nameable id → t.get id = s.get id
  childrenOf_eq : ∀ parent, (∀ id, parent = some id → s.Nameable id) →
    t.childrenOf parent = s.childrenOf parent
  walkBelow_eq : ∀ parent, (∀ id, parent = some id → s.Nameable id) →
    t.walkBelow parent = s.walkBelow parent
  lineage_eq : ∀ p, s.Findable p → t.lineage p = s.lineage p
  depth_eq : ∀ p, s.Findable p → t.depth p = s.depth p
  problems_eq : t.problems = s.problems
  rank_eq : ∀ choices p, t.rank? choices p = s.rank? choices p
  number_eq : ∀ choices numbering p, s.Findable p →
    t.number? choices numbering p = s.number? choices numbering p
  byReference_eq : ∀ choices numbering reference,
    t.byReference? choices numbering reference = s.byReference? choices numbering reference
  topicNumbers_eq : ∀ choices numbering topics consolidated,
    t.topicNumbers choices numbering topics consolidated =
      s.topicNumbers choices numbering topics consolidated
  outline_eq : ∀ v kind, t.outline v kind = s.outline v kind
  html_eq : ∀ v, t.html v = s.html v

/-- A database that can hold all rows shows the same forest. -/
theorem Shows.onDatabase (h : s.Shows f) (hheld : ∀ p ∈ s.rows, p.Held) :
    (s.onDatabase inside).Shows f where
  rows_eq := h.rows_eq
  nodup := h.nodup
  issued := h.issued
  held := fun p hp => canHold_iff.2 fun _ => hheld p (mem_rows_of_mem hp)

theorem Shows.findable (h : s.Shows f) {p : Paragraph} (hp : p ∈ s.paragraphs) : s.Findable p :=
  fun _ hid => .inl (contains_iff_exists.2 (h.parent_stored hp hid))

/-! ## The forest -/

theorem children_onDatabase (parent : Option Int) :
    (s.onDatabase inside).children parent = s.children parent := rfl

theorem branches_onDatabase (fuel : Nat) (parent : Option Int) :
    (s.onDatabase inside).branches fuel parent = s.branches fuel parent := by
  induction fuel generalizing parent with
  | zero => rfl
  | succ fuel ih =>
    unfold branches
    simp only [children_onDatabase, ih]

theorem below_onDatabase (parent : Option Int) :
    (s.onDatabase inside).below parent = s.below parent :=
  branches_onDatabase s.rows.length parent

theorem forest_onDatabase : (s.onDatabase inside).forest = s.forest := below_onDatabase none

theorem documentOrder_onDatabase : (s.onDatabase inside).documentOrder = s.documentOrder := by
  unfold documentOrder walk
  rw [forest_onDatabase]

/-! ## The way up -/

theorem Shows.climb_onDatabase (h : s.Shows f) (hm : s.medium = .memory) (fuel : Nat)
    {p : Paragraph} (hp : s.Findable p) :
    (s.onDatabase inside).climb fuel p = s.climb fuel p := by
  induction fuel generalizing p with
  | zero => rfl
  | succ fuel ih =>
    unfold climb
    cases hparent : p.parent with
    | none => rfl
    | some id =>
      dsimp only
      rw [get_onDatabase hm (hp id hparent)]
      cases hget : s.get id with
      | error e => rfl
      | ok q =>
        have hq := ih (h.findable (get_eq_ok hget).1)
        show (do return (← (s.onDatabase inside).climb fuel q) ++ [p]) = _
        rw [hq]
        rfl

theorem Shows.lineage_onDatabase (h : s.Shows f) (hm : s.medium = .memory) {p : Paragraph}
    (hp : s.Findable p) : (s.onDatabase inside).lineage p = s.lineage p :=
  h.climb_onDatabase hm (s.rows.length + 1) hp

theorem Shows.depth_onDatabase (h : s.Shows f) (hm : s.medium = .memory) {p : Paragraph}
    (hp : s.Findable p) : (s.onDatabase inside).depth p = s.depth p :=
  congrArg (Except.map List.length) (h.lineage_onDatabase hm hp)

theorem Shows.walkBelow_onDatabase (h : s.Shows f) (hm : s.medium = .memory)
    {parent : Option Int} (hp : ∀ id, parent = some id → s.Nameable id) :
    (s.onDatabase inside).walkBelow parent = s.walkBelow parent := by
  cases parent with
  | none =>
    unfold walkBelow
    rw [forest_onDatabase]
  | some id =>
    unfold walkBelow
    dsimp only
    rw [get_onDatabase hm (hp id rfl), below_onDatabase]
    cases hget : s.get id with
    | error e => rfl
    | ok p =>
      have hdepth : (s.onDatabase inside).depth p = s.depth p :=
        h.depth_onDatabase hm (h.findable (get_eq_ok hget).1)
      show ((s.onDatabase inside).depth p >>= _) = (s.depth p >>= _)
      rw [hdepth]

/-! ## Numbers -/

theorem rank?_onDatabase (choices : Choices) (p : Paragraph) :
    (s.onDatabase inside).rank? choices p = s.rank? choices p := rfl

theorem Shows.number?_onDatabase (h : s.Shows f) (hm : s.medium = .memory) (choices : Choices)
    (numbering : Numbering) {p : Paragraph} (hp : s.Findable p) :
    (s.onDatabase inside).number? choices numbering p = s.number? choices numbering p := by
  unfold number?
  rw [h.lineage_onDatabase hm hp]
  have hranks : ∀ ps, (s.onDatabase inside).rankTexts choices numbering 1 ps =
      s.rankTexts choices numbering 1 ps := fun ps =>
    rankTexts_congr (List.forall₂_same.2 fun p _ => rank?_onDatabase choices p) numbering 1
  simp only [hranks]

/-! ## Outlines -/

theorem outlineEntries_of_outlineText {t : Store} {v : View} {kind : OutlineKind}
    (h : ∀ p, t.outlineText v kind p = s.outlineText v kind p)
    (xs : List (Paragraph × Except Fault (List Value))) :
    t.outlineEntries v kind xs = s.outlineEntries v kind xs := by
  induction xs with
  | nil => rfl
  | cons x xs ih =>
    unfold outlineEntries
    rw [h, ih]

/-- The texts of an outline that is not for display are those of the rows. -/
theorem outline_onDatabase (v : View) {kind : OutlineKind} (hk : kind ≠ .display) :
    (s.onDatabase inside).outline v kind = s.outline v kind := by
  have htext : ∀ p, (s.onDatabase inside).outlineText v kind p = s.outlineText v kind p := by
    intro p
    cases kind with
    | bodies => rfl
    | source => rfl
    | display => exact absurd rfl hk
  have hbelow : (s.onDatabase inside).outlineBelow v kind = s.outlineBelow v kind := by
    funext p below
    unfold outlineBelow
    rw [outlineEntries_of_outlineText htext]
  unfold outline
  rw [outlineEntries_of_outlineText htext, hbelow, forest_onDatabase]

/-- Everything that is read in memory is the same on a database that can hold all rows. -/
theorem Shows.readsAlike (h : s.Shows f) (hm : s.medium = .memory)
    (hheld : ∀ p ∈ s.rows, p.Held) : ReadsAlike s (s.onDatabase inside) where
  paragraphs_eq := rfl
  get_eq := fun _ hid => get_onDatabase hm hid
  childrenOf_eq := fun _ hp => childrenOf_onDatabase hm hp
  walkBelow_eq := fun _ hp => h.walkBelow_onDatabase hm hp
  lineage_eq := fun _ hp => h.lineage_onDatabase hm hp
  depth_eq := fun _ hp => h.depth_onDatabase hm hp
  problems_eq := rfl
  rank_eq := rank?_onDatabase
  number_eq := fun choices numbering _ hp => h.number?_onDatabase hm choices numbering hp
  byReference_eq := by
    intro choices numbering reference
    unfold byReference?
    rw [documentOrder_onDatabase]
    exact firstNumbered_congr fun _ hp =>
      h.number?_onDatabase hm choices numbering (h.findable (h.documentOrder_perm.mem_iff.1 hp))
  topicNumbers_eq := by
    intro choices numbering topics consolidated
    unfold topicNumbers
    have htopics : (s.onDatabase inside).withTopics choices topics =
        s.withTopics choices topics := rfl
    rw [htopics, numbersOf_congr (List.forall₂_same.2 fun _ hp =>
      h.number?_onDatabase hm choices numbering (h.findable (mem_of_mem_withTopics hp)))]
  outline_eq := by
    intro v kind
    by_cases hk : kind = .display
    · subst hk
      exact (h.onDatabase hheld).outline_eq_of_shown h (rename_id _)
    · exact outline_onDatabase v hk
  html_eq := fun v => (h.onDatabase hheld).html_eq_of_shown h (rename_id _)

end Bylaws.Store
