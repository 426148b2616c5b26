import Bylaws.Proofs.Rendering.Media
import Bylaws.Proofs.Store.Mirror

/-!
# Reading under other ids

Of two stores that resemble one another the same is read, up to the names of paragraphs: lookups by
id, the order of the document, lineages, ranks and numbers, and with no difference at all the
outlines and the page, which have no ids in them (`Resembles.readsRenamed`).
-/

namespace Bylaws.Store

open Forest

variable {lenient : Prop} {names : List (Int × Int)} {ρ : Int → Int} {s t : Store} {f f' : Forest}
  {choices : Choices} {c : Numbering}

/-- All that can be read of two stores is the same up to the names of paragraphs. -/
structure ReadsRenamed (ρ : Int → Int) (s t : Store) : Prop where
  paragraphs_eq : t.paragraphs = s.paragraphs.map (Paragraph.rename ρ)
  get : ∀ names i j, Named names ρ s t i j →
    Echoes False names (fun p q => q = p.rename ρ) (s.get i) (t.get j)
  childrenOf : ∀ names parent parent', Placed names ρ s t parent parent' →
    Echoes False names (fun ps qs => qs = ps.map (Paragraph.rename ρ)) (s.childrenOf parent)
      (t.childrenOf parent')
  walkBelow : ∀ names parent parent', Placed names ρ s t parent parent' →
    Echoes False names (fun xs ys => ys = xs.map (renameEntry ρ)) (s.walkBelow parent)
      (t.walkBelow parent')
  lineage_eq : ∀ p ∈ s.paragraphs,
    t.lineage (p.rename ρ) = (s.lineage p).map (List.map (Paragraph.rename ρ))
  depth_eq : ∀ p ∈ s.paragraphs, t.depth (p.rename ρ) = s.depth p
  problems_eq : t.problems = s.problems
  rank_eq : ∀ choices p, t.rank? choices (p.rename ρ) = s.rank? choices p
  number_eq : ∀ choices numbering, ∀ p ∈ s.paragraphs,
    t.number? choices numbering (p.rename ρ) = s.number? choices numbering p
  byReference_eq : ∀ choices numbering reference,
    t.byReference? choices numbering reference =
      (s.byReference? choices numbering reference).map (Option.map (Paragraph.rename ρ))
  topicNumbers_eq : ∀ choices numbering topics consolidated,
    t.topicNumbers choices numbering topics consolidated =
      s.topicNumbers choices numbering topics consolidated
  outline_eq : ∀ v kind, t.outline v kind = s.outline v kind
  html_eq : ∀ v, t.html v = s.html v

/-! ## The forest -/

/-- A store that resembles one that shows a forest shows that forest with its ids renamed. -/
theorem Resembles.shows (hρ : StrictMono ρ) (h : Resembles lenient ρ s t) (hf : s.Shows f)
    (hf' : t.Shows f') : t.Shows (f.rename ρ) where
  rows_eq := by
    rw [h.paragraphs_eq, h.documentId_eq, ← Multiset.map_coe, hf.rows_eq]
    exact (rows_rename ρ s.documentId none f).symm
  nodup := by
    rw [ids_rename]
    exact hf.nodup.map hρ.injective
  issued := hf'.issued
  held := hf'.held

section Forests

variable (hf : s.Shows f) (hf' : t.Shows (f.rename ρ)) (hd : t.documentId = s.documentId)

include hf hf' hd

theorem walk_rename : t.walk = s.walk.map (renameEntry ρ) := by
  unfold walk
  rw [hf.forest_eq, hf'.forest_eq, hd]
  exact walkForest_rename ρ s.documentId none 1 f 1

theorem documentOrder_rename :
    t.documentOrder = s.documentOrder.map (Paragraph.rename ρ) := by
  unfold documentOrder
  rw [walk_rename hf hf' hd, List.map_map, List.map_map]
  rfl

/-- The way down to a paragraph. -/
theorem lineage_rename {p : Paragraph} (hp : p ∈ s.paragraphs) :
    t.lineage (p.rename ρ) = (s.lineage p).map (List.map (Paragraph.rename ρ)) := by
  obtain ⟨C, l, b, r, rfl, hrow⟩ := hf.exists_place hp
  have hparent : p.parent = C.parent := by rw [hrow, row_parent]
  rw [Hole.rename_plug] at hf'
  rw [hf.lineage_eq hparent, hf'.lineage_eq (by rw [Hole.parent_rename, ← hparent]; rfl), hd,
    Hole.ancestors_rename]
  show _ = Except.ok ((C.ancestors s.documentId ++ [p]).map (Paragraph.rename ρ))
  rw [List.map_append]
  rfl

theorem depth_rename {p : Paragraph} (hp : p ∈ s.paragraphs) :
    t.depth (p.rename ρ) = s.depth p := by
  unfold depth
  rw [lineage_rename hf hf' hd hp]
  cases s.lineage p with
  | error e => rfl
  | ok ps => exact congrArg Except.ok (List.length_map ..)

/-- What lies below a paragraph. -/
theorem walkForest_below_rename {id : Int} (hid : s.contains id = true) (depth : Nat) :
    walkForest depth (t.below (some (ρ id))) =
      (walkForest depth (s.below (some id))).map (renameEntry ρ) := by
  have hscope : ∀ id', some id = some id' → s.contains id' = true := by
    rintro _ ⟨⟩
    exact hid
  obtain ⟨C, g, rfl, hparent⟩ := hf.exists_scope hscope
  rw [Hole.rename_plug] at hf'
  have hs := hf.below_eq
  have ht := hf'.below_eq
  rw [Hole.parent_rename, hparent, Option.map_some] at ht
  rw [hparent] at hs
  rw [hs, ht, hd]
  exact walkForest_rename ρ s.documentId (some id) 1 g depth

end Forests

/-! ## Ranks and numbers -/

theorem rankAmong_rename (hρ : StrictMono ρ) (id : Int) (before : Nat) (ps : List Paragraph) :
    rankAmong choices (ρ id) before (ps.map (Paragraph.rename ρ)) =
      rankAmong choices id before ps := by
  induction ps generalizing before with
  | nil => rfl
  | cons p ps ih =>
    rw [List.map_cons, rankAmong, rankAmong, ih, Paragraph.rename_id]
    simp only [hρ.injective.eq_iff]
    rfl

section Numbers

variable (hρ : StrictMono ρ) (h : Resembles lenient ρ s t)

include hρ h

theorem rank?_rename (choices : Choices) (p : Paragraph) :
    t.rank? choices (p.rename ρ) = s.rank? choices p := by
  unfold rank?
  rw [Paragraph.rename_parent, h.children_eq hρ, Paragraph.rename_id, rankAmong_rename hρ]
  rfl

variable (hf : s.Shows f) (hf' : t.Shows (f.rename ρ))

include hf hf'

theorem number?_rename (choices : Choices) (c : Numbering) {p : Paragraph}
    (hp : p ∈ s.paragraphs) :
    t.number? choices c (p.rename ρ) = s.number? choices c p := by
  unfold number?
  rw [lineage_rename hf hf' h.documentId_eq hp]
  cases s.lineage p with
  | error e => rfl
  | ok ps =>
    show (if p.isNumbered choices then (t.rankTexts choices c 1 (ps.map (Paragraph.rename ρ)) >>=
      fun texts => _) else _) = _
    have hranks : List.Forall₂ (fun q p => t.rank? choices q = s.rank? choices p)
        (ps.map (Paragraph.rename ρ)) ps :=
      List.forall₂_map_left_iff.2 (List.forall₂_same.2 fun q _ => rank?_rename hρ h choices q)
    rw [rankTexts_congr hranks c 1]
    rfl

theorem firstNumbered_rename (choices : Choices) (c : Numbering) (number : String)
    {ps : List Paragraph} (hps : ∀ p ∈ ps, p ∈ s.paragraphs) :
    t.firstNumbered choices c number (ps.map (Paragraph.rename ρ)) =
      (s.firstNumbered choices c number ps).map (Option.map (Paragraph.rename ρ)) := by
  induction ps with
  | nil => rfl
  | cons p ps ih =>
    rw [List.forall_mem_cons] at hps
    rw [List.map_cons, firstNumbered, firstNumbered, number?_rename hρ h hf hf' _ _ hps.1,
      ih hps.2]
    cases s.number? choices c p with
    | error e => rfl
    | ok n =>
      show (if n = some number then _ else _) = Except.map _ (if n = some number then _ else _)
      split <;> rfl

end Numbers

theorem Resembles.withTopics_eq (h : Resembles lenient ρ s t) (choices : Choices)
    (topics : List Value) :
    t.withTopics choices topics = (s.withTopics choices topics).map (Paragraph.rename ρ) := by
  show sortBy _ (t.paragraphs.filter _) = (sortBy _ (s.paragraphs.filter _)).map _
  rw [h.paragraphs_eq, List.filter_map]
  exact sortBy_map (fun _ _ => rfl) _

/-! ## Outlines -/

theorem outlineBelow_congr {v : View} {kind : OutlineKind}
    {xs ys : List (Paragraph × Except Fault (List Value))} {p q : Paragraph}
    (h : t.outlineEntries v kind ys = s.outlineEntries v kind xs) (hlist : q.list = p.list) :
    t.outlineBelow v kind q ys = s.outlineBelow v kind p xs := by
  unfold outlineBelow
  rw [h, hlist]

/-- The ids do not occur in an outline of the bodies or of the import texts. -/
theorem outlineEntries_rename (v : View) {kind : OutlineKind} (hk : kind ≠ .display)
    (doc doc' : String) (parent parent' : Option Int) (k k' : Int) (f : Forest) :
    t.outlineEntries v kind (foldForest (t.outlineBelow v kind)
        ((f.rename ρ).nodes doc' parent' k')) =
      s.outlineEntries v kind (foldForest (s.outlineBelow v kind) (f.nodes doc parent k)) := by
  induction f generalizing parent parent' k k' with
  | nil =>
    rw [rename, nodes, nodes, foldForest, foldForest]
    rfl
  | cons id fields below rest ih₁ ih₂ =>
    have htext : t.outlineText v kind (row doc' parent' k' (ρ id) fields) =
        s.outlineText v kind (row doc parent k id fields) := by
      cases kind with
      | bodies => rfl
      | source => rfl
      | display => exact absurd rfl hk
    have hbelow : t.outlineBelow v kind (row doc' parent' k' (ρ id) fields)
          (foldForest (t.outlineBelow v kind) ((below.rename ρ).nodes doc' (some (ρ id)) 1)) =
        s.outlineBelow v kind (row doc parent k id fields)
          (foldForest (s.outlineBelow v kind) (below.nodes doc (some id) 1)) :=
      outlineBelow_congr (ih₁ (some id) (some (ρ id)) 1 1) rfl
    rw [rename, nodes, nodes, foldForest, foldForest, outlineEntries, outlineEntries, htext, hbelow,
      ih₂ parent parent' (k + 1) (k' + 1)]

theorem outline_rename (hf : s.Shows f) (hf' : t.Shows (f.rename ρ)) (v : View)
    (kind : OutlineKind) : t.outline v kind = s.outline v kind := by
  by_cases hk : kind = .display
  · subst hk
    exact (hf.outline_eq_of_shown hf' (shown_rename ρ f).symm).symm
  · unfold outline
    rw [hf.forest_eq, hf'.forest_eq]
    exact outlineEntries_rename v hk _ _ _ _ _ _ f

theorem html_rename (hf : s.Shows f) (hf' : t.Shows (f.rename ρ)) (v : View) :
    t.html v = s.html v := (hf.html_eq_of_shown hf' (shown_rename ρ f).symm).symm

/-! ## All reads -/

theorem childrenOf_rename (hρ : StrictMono ρ) (h : Resembles lenient ρ s t) (hf : s.Shows f)
    {parent parent' : Option Int} (hn : Placed names ρ s t parent parent') :
    Echoes lenient names (fun ps qs => qs = ps.map (Paragraph.rename ρ)) (s.childrenOf parent)
      (t.childrenOf parent') := by
  have hchildren := hn.children hρ h hf
  refine (hn.checkName hρ h).bind fun _ _ _ _ _ => .ok ?_
  rw [hchildren]

theorem walkBelow_rename (hρ : StrictMono ρ) (h : Resembles lenient ρ s t) (hf : s.Shows f)
    (hf' : t.Shows (f.rename ρ)) {parent parent' : Option Int}
    (hn : Placed names ρ s t parent parent') :
    Echoes lenient names (fun xs ys => ys = xs.map (renameEntry ρ)) (s.walkBelow parent)
      (t.walkBelow parent') := by
  cases hn with
  | top => exact .ok (walk_rename hf hf' h.documentId_eq)
  | @under i j hn =>
    refine (hn.get hρ h).bind ?_
    rintro p _ hp hq rfl
    obtain ⟨hmem, rfl⟩ := get_eq_ok hp
    obtain ⟨-, rfl⟩ := get_eq_ok hq
    rw [depth_rename hf hf' h.documentId_eq hmem]
    cases s.depth p with
    | error e => exact .error (.same e)
    | ok depth =>
      exact .ok (walkForest_below_rename hf hf' h.documentId_eq
        (contains_iff_exists.2 ⟨p, hmem, rfl⟩) (depth + 1))

/-- Whatever is read of a store is read of a store that resembles it, up to the names. -/
theorem Resembles.readsRenamed (hρ : StrictMono ρ) (h : Resembles False ρ s t) (hf : s.Shows f)
    (hf' : t.Shows (f.rename ρ)) : ReadsRenamed ρ s t where
  paragraphs_eq := h.paragraphs_eq
  get := fun _ _ _ hn => hn.get hρ h
  childrenOf := fun _ _ _ hn => childrenOf_rename hρ h hf hn
  walkBelow := fun _ _ _ hn => walkBelow_rename hρ h hf hf' hn
  lineage_eq := fun _ hp => lineage_rename hf hf' h.documentId_eq hp
  depth_eq := fun _ hp => depth_rename hf hf' h.documentId_eq hp
  problems_eq := by rw [hf.wellFormed.problems_eq_nil, hf'.wellFormed.problems_eq_nil]
  rank_eq := rank?_rename hρ h
  number_eq := fun choices c _ hp => number?_rename hρ h hf hf' choices c hp
  byReference_eq := by
    intro choices c reference
    unfold byReference?
    rw [documentOrder_rename hf hf' h.documentId_eq]
    exact firstNumbered_rename hρ h hf hf' choices c _
      fun _ hp => hf.documentOrder_perm.mem_iff.1 hp
  topicNumbers_eq := by
    intro choices c topics consolidated
    unfold topicNumbers
    have hnumbers : List.Forall₂ (fun q p => t.number? choices c q = s.number? choices c p)
        ((s.withTopics choices topics).map (Paragraph.rename ρ)) (s.withTopics choices topics) :=
      List.forall₂_map_left_iff.2 (List.forall₂_same.2 fun p hp =>
        number?_rename hρ h hf hf' choices c (mem_of_mem_withTopics hp))
    rw [h.withTopics_eq, numbersOf_congr hnumbers]
  outline_eq := outline_rename hf hf'
  html_eq := html_rename hf hf'

end Bylaws.Store
