import Bylaws.Proofs.Rendering.Markup
import Bylaws.Proofs.Rendering.Reading
import Mathlib.Data.List.Chain

/-!
# Ranks without gaps

`Store.ranks_chained`: what the ranks of a document are, and what its numbers are made of.

1. The numbered siblings of any place have the ranks one, two, three and so on, in the order of
   their positions, and the other siblings have none (`Shows.map_rank?_children`).
2. The way down to a paragraph leads from the top level to it, each paragraph right below the one
   before (`Hole.isChain_ancestors`). The numbered paragraphs on it give the ranks that the number
   is written from, each at its own depth: what is passed over on the way is counted into the
   depth of what comes after (`Shows.ranked_ancestors`).

No rank is below one, so a style is never asked for a number that it has no numeral for.
-/

namespace Bylaws

open Forest

variable {choices : Choices}

/-- Each paragraph on the way down is right below the one before. -/
theorem Hole.isChain_ancestors (doc : String) (C : Hole) {p : Paragraph}
    (hp : p.parent = C.parent) :
    (C.ancestors doc ++ [p]).IsChain fun q r => r.parent = some q.id := by
  induction C generalizing p with
  | top => exact .singleton p
  | under left id fields right outer ih =>
    have houter := ih (p := row doc outer.parent (1 + left.width) id fields) rfl
    refine List.isChain_append.2 ⟨houter, .singleton p, ?_⟩
    intro q hq r hr
    obtain rfl : p = r := by simpa using hr
    obtain rfl : row doc outer.parent (1 + left.width) id fields = q := by
      simpa [ancestors] using hq
    exact hp

/-- Joined texts, or the last of them. -/
theorem Numbering.join_eq_ite (c : Numbering) (texts : List String) :
    c.join texts = if c.innermostOnly then texts.getLast?.getD ""
      else String.intercalate c.separator texts := by
  unfold Numbering.join
  cases hl : texts.getLast? with
  | none =>
    obtain rfl := List.getLast?_eq_none_iff.1 hl
    exact (ite_self _).symm
  | some last => rfl

namespace Store

variable {s : Store}

/-- A paragraph has a rank, of at least one, at its depth. -/
structure Ranked (s : Store) (choices : Choices) (p : Paragraph) (r : Rank) : Prop where
  rank?_eq : s.rank? choices p = some r.count
  one_le : 1 ≤ r.count
  depth_eq : s.depth p = .ok r.depth

theorem rank?_of_not_numbered {p : Paragraph} (h : p.isNumbered choices = false) :
    s.rank? choices p = none := by
  unfold rank?
  rw [h]
  rfl

/-- A parent is that of a place in the forest, or there is nothing below it. -/
theorem Shows.children_cases {f : Forest} (h : s.Shows f) (parent : Option Int) :
    (∃ (C : Hole) (g : Forest), f = C.plug g ∧ parent = C.parent) ∨ s.children parent = [] := by
  by_cases hp : ∀ id, parent = some id → s.contains id = true
  · obtain ⟨C, g, rfl, rfl⟩ := h.exists_scope hp
    exact .inl ⟨C, g, rfl, rfl⟩
  · right
    obtain ⟨id, rfl, hid⟩ : ∃ id, parent = some id ∧ s.contains id = false := by simpa using hp
    refine List.eq_nil_iff_forall_not_mem.2 fun p hp => ?_
    obtain ⟨hmem, hparent⟩ := mem_children.1 hp
    obtain ⟨C, l, b, r, rfl, hrow⟩ := h.exists_place hmem
    have hC : C.parent = some id := by rw [← hparent, hrow, row_parent]
    rw [h.contains_of_parent hC] at hid
    exact nomatch hid

theorem Shows.pairwise_children {f : Forest} (h : s.Shows f) (parent : Option Int) :
    (s.children parent).Pairwise fun p q => p.position < q.position := by
  rcases h.children_cases parent with ⟨C, g, rfl, rfl⟩ | hnone
  · rw [h.children_eq]
    exact pairwise_heads _ _ _ g
  · rw [hnone]
    exact .nil

/-- Numbered siblings have ranks that go on from those to their left. -/
theorem Shows.map_rank?_heads {C : Hole} {f l : Forest} (h : s.Shows (C.plug (l ++ f))) :
    ((f.heads s.documentId C.parent (1 + l.width)).filter (·.isNumbered choices)).map
        (s.rank? choices) =
      (List.range' (l.numbered choices + 1) (f.numbered choices)).map some := by
  induction f generalizing l with
  | nil => rfl
  | cons id fields below rest _ ih =>
    have hrest := ih (l := l ++ tree id fields below) (by rwa [append_assoc, tree_append])
    rw [one_add_width_append_tree, numbered_append, numbered_tree] at hrest
    rw [heads, Forest.numbered]
    cases hn : fields.isNumbered choices with
    | false =>
      rw [List.filter_cons_of_neg (by simp [isNumbered_row, hn])]
      simpa [hn] using hrest
    | true =>
      rw [List.filter_cons_of_pos (by simpa [isNumbered_row] using hn), List.map_cons,
        h.rank?_eq, if_pos hn, if_pos rfl, Nat.add_comm 1, List.range'_succ, List.map_cons]
      simpa [hn] using hrest

/-- The numbered siblings of a place are counted from one. -/
theorem Shows.map_rank?_children {f : Forest} (h : s.Shows f) (choices : Choices)
    (parent : Option Int) :
    ((s.children parent).filter (·.isNumbered choices)).map (s.rank? choices) =
      (List.range' 1 ((s.children parent).countP (·.isNumbered choices))).map some := by
  rcases h.children_cases parent with ⟨C, g, rfl, rfl⟩ | hnone
  · have hranks := (map_rank?_heads (l := nil) h : List.map (s.rank? choices) _ = _)
    have hlen := congrArg List.length hranks
    simp only [List.length_map, List.length_range', ← List.countP_eq_length_filter] at hlen
    rw [h.children_eq]
    exact hranks.trans (by rw [← hlen]; rfl)
  · rw [hnone]
    rfl

/-! ## Ranks on the way down -/

theorem Shows.mem_of_mem_ancestors {C : Hole} {g : Forest} (h : s.Shows (C.plug g)) {q : Paragraph}
    (hq : q ∈ C.ancestors s.documentId) : q ∈ s.paragraphs := by
  induction C generalizing g with
  | top => exact absurd hq List.not_mem_nil
  | under left id fields right outer ih =>
    have ho : s.Shows (outer.plug (left ++ cons id fields g right)) := h
    rcases List.mem_append.1 hq with hq | hq
    · exact ih ho hq
    · obtain rfl := List.mem_singleton.1 hq
      exact ho.row_mem

theorem Shows.ranked_row {C : Hole} {l b r : Forest} {id : Int} {fields : Fields}
    (h : s.Shows (C.plug (l ++ cons id fields b r))) :
    List.Forall₂ (s.Ranked choices)
      ([row s.documentId C.parent (1 + l.width) id fields].filter (·.isNumbered choices))
      (l.rankAfter choices C.depth fields) := by
  unfold rankAfter
  by_cases hn : fields.isNumbered choices = true
  · rw [List.filter_cons_of_pos (by simpa [isNumbered_row] using hn), if_pos hn]
    refine .cons ⟨?_, Nat.le_add_left 1 _, h.depth_eq rfl⟩ .nil
    rw [h.rank?_eq, if_pos hn]
  · rw [List.filter_cons_of_neg (by simpa [isNumbered_row] using hn), if_neg hn]
    exact .nil

/-- The ranks on the way down are those of the numbered paragraphs on it. -/
theorem Shows.ranked_ancestors {C : Hole} {g : Forest} (h : s.Shows (C.plug g)) :
    List.Forall₂ (s.Ranked choices)
      ((C.ancestors s.documentId).filter (·.isNumbered choices)) (C.ranks choices) := by
  induction C generalizing g with
  | top => exact .nil
  | under left id fields right outer ih =>
    have ho : s.Shows (outer.plug (left ++ cons id fields g right)) := h
    unfold Hole.ancestors Hole.ranks
    rw [List.filter_append]
    exact List.rel_append (ih ho) ho.ranked_row

/-- The numbered paragraphs on the way down to a paragraph, itself included. -/
theorem Shows.ranked_lineage {C : Hole} {l b r : Forest} {id : Int} {fields : Fields}
    (h : s.Shows (C.plug (l ++ cons id fields b r))) (choices : Choices) :
    List.Forall₂ (s.Ranked choices)
      ((C.ancestors s.documentId ++ [row s.documentId C.parent (1 + l.width) id fields]).filter
        (·.isNumbered choices))
      (C.ranks choices ++ l.rankAfter choices C.depth fields) := by
  rw [List.filter_append]
  exact List.rel_append h.ranked_ancestors h.ranked_row

/-- In every place the numbered siblings have the ranks one, two, three and so on by position, and
the others have none. The number of a paragraph is written from the ranks of the numbered
paragraphs on the way down to it, each at its own depth, and joins them all or takes the last one
only. -/
theorem ranks_chained (h : s.Reachable) (choices : Choices) :
    (∀ parent : Option Int,
      (∀ p, p ∈ s.children parent ↔ p ∈ s.paragraphs ∧ p.parent = parent) ∧
      (s.children parent).Pairwise (fun p q => p.position < q.position) ∧
      ((s.children parent).filter (·.isNumbered choices)).map (s.rank? choices) =
        (List.range' 1 ((s.children parent).countP (·.isNumbered choices))).map some ∧
      ∀ p ∈ s.children parent, p.isNumbered choices = false → s.rank? choices p = none) ∧
    ∀ c : Numbering, ∀ p ∈ s.paragraphs, p.isNumbered choices = true →
      ∃ (above : List Paragraph) (ranks : List Rank),
        s.lineage p = .ok (above ++ [p]) ∧
        (∀ q ∈ above, q ∈ s.paragraphs) ∧
        (∀ q ∈ (above ++ [p]).head?, q.parent = none) ∧
        (above ++ [p]).IsChain (fun q r => r.parent = some q.id) ∧
        List.Forall₂ (s.Ranked choices) ((above ++ [p]).filter (·.isNumbered choices)) ranks ∧
        s.number? choices c p = (c.texts ranks).map (fun texts =>
          some (if c.innermostOnly then texts.getLast?.getD ""
            else String.intercalate c.separator texts)) ∧
        (c.Styled → ∃ texts, c.texts ranks = .ok texts) := by
  obtain ⟨f, hf⟩ := h.exists_shows
  refine ⟨fun parent => ?_, fun c p hp hn => ?_⟩
  · exact ⟨fun p => mem_children, hf.pairwise_children parent, hf.map_rank?_children choices parent,
      fun p _ => rank?_of_not_numbered⟩
  · obtain ⟨C, l, b, r, rfl, hrow⟩ := hf.exists_place hp
    rw [Int.add_comm] at hrow
    have hparent : p.parent = C.parent := by rw [hrow, row_parent]
    obtain ⟨top, rest, hline, htop⟩ := C.ancestors_top s.documentId p hparent
    have hranked := hf.ranked_lineage choices
    have hnumber : s.number? choices c
      (row s.documentId C.parent (1 + l.width) p.id p.fields) = _ := hf.number?_eq c
    rw [← hrow] at hranked hnumber
    rw [if_pos (show p.fields.isNumbered choices = true from hn)] at hnumber
    simp only [Numbering.join_eq_ite] at hnumber
    refine ⟨C.ancestors s.documentId, C.ranks choices ++ l.rankAfter choices C.depth p.fields,
      hf.lineage_eq hparent, fun q hq => hf.mem_of_mem_ancestors hq, ?_,
      C.isChain_ancestors s.documentId hparent, hranked, hnumber, fun hc => hc.exists_texts _⟩
    intro q hq
    rw [hline] at hq
    obtain rfl : top = q := Option.some.inj hq
    exact htop

/-- Below a heading, which has no rank, a paragraph is written as its own depth asks for. -/
theorem ranks_chained_headed :
    (∀ p ∈ headed.children none, headed.rank? {} p = none) ∧
    ∃ p ∈ headed.paragraphs, p.body = "a" ∧ headed.Ranked {} p ⟨1, 2⟩ ∧
      headed.number? {} { levels := [(2, ⟨"lower_alpha", "(#)"⟩)] } p = .ok (some "(a)") := by
  have hp : row "d" (some 1) 1 2 { body := "a" } ∈ headed.paragraphs := by decide
  have hlineage : headed.lineage (row "d" (some 1) 1 2 { body := "a" }) =
      .ok [row "d" none 1 1 { body := "A", heading := some 1 },
        row "d" (some 1) 1 2 { body := "a" }] := by cbv
  have hrank : headed.rank? {} (row "d" (some 1) 1 2 { body := "a" }) = some 1 := by cbv
  have hdepth : headed.depth (row "d" (some 1) 1 2 { body := "a" }) = .ok 2 := by cbv
  have htop : ∀ p ∈ headed.children none, p.isNumbered {} = false := by decide
  obtain ⟨hplaces, hnumbers⟩ := ranks_chained reachable_headed {}
  obtain ⟨above, ranks, hline, -, -, -, hranked, hnumber, -⟩ :=
    hnumbers { levels := [(2, ⟨"lower_alpha", "(#)"⟩)] } _ hp (by decide)
  rw [Except.ok.inj (hline.symm.trans hlineage)] at hranked
  obtain ⟨⟨count, depth⟩, rest, hr, hrest, rfl⟩ := List.forall₂_cons_left_iff.1 hranked
  obtain rfl := List.forall₂_nil_left_iff.1 hrest
  obtain rfl : 1 = count := Option.some.inj (hrank.symm.trans hr.rank?_eq)
  obtain rfl : 2 = depth := Except.ok.inj (hdepth.symm.trans hr.depth_eq)
  exact ⟨fun p hmem => (hplaces none).2.2.2 p hmem (htop p hmem), _, hp, rfl, hr,
    hnumber.trans (by cbv)⟩

end Store

end Bylaws
