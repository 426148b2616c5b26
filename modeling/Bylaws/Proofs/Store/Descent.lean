import Bylaws.Proofs.Store.Action

/-!
# What lies below a paragraph

`Below` says that a paragraph lies below another one by the parents alone, in any list of
paragraphs, cycles included. The ids that a subtree is deleted by are exactly those
(`mem_subtreeIds`): the worklist that finds them in memory and the rounds of the query that a
database runs keep one invariant (`Collects`), and the number of rows bounds the steps of both. In
a store that shows a forest the paragraphs below one are the nodes below it (`Shows.below_iff`).
-/

namespace Bylaws.Store

open Forest

/-- A paragraph lies below an id: its parent has that id, or lies below it. -/
inductive Below (ps : List Paragraph) (top : Int) : Paragraph → Prop where
  | child {p : Paragraph} : p ∈ ps → p.parent = some top → Below ps top p
  | deeper {p q : Paragraph} : Below ps top q → p ∈ ps → p.parent = some q.id → Below ps top p

theorem Below.mem {ps : List Paragraph} {top : Int} {p : Paragraph} (h : Below ps top p) :
    p ∈ ps := by
  cases h <;> assumption

/-- An id is that of a paragraph or of one below it. -/
def Within (ps : List Paragraph) (top : Int) (id : Int) : Prop :=
  id = top ∨ ∃ p, Below ps top p ∧ p.id = id

theorem Within.below {ps : List Paragraph} {top id : Int} (h : Within ps top id) {p : Paragraph}
    (hp : p ∈ ps) (hid : p.parent = some id) : Below ps top p := by
  rcases h with rfl | ⟨q, hq, rfl⟩
  · exact .child hp hid
  · exact .deeper hq hp hid

/-! ## The worklist -/

/-- The invariant of the worklist: what has been found is within the subtree, and lacks at most
what is right below the frontier. -/
structure Collects (ps : List Paragraph) (top : Int) (frontier found : List Int) : Prop where
  top_mem : top ∈ found
  frontier_subset : frontier ⊆ found
  within : ∀ id ∈ found, Within ps top id
  complete : ∀ p ∈ ps, ∀ id, p.parent = some id → id ∈ found → id ∉ frontier → p.id ∈ found

/-- The paragraphs that have not been found. -/
def missing (ps : List Paragraph) (found : List Int) : List Paragraph :=
  ps.filter fun p => !found.contains p.id

section Worklist

variable {ps : List Paragraph} {top id : Int} {frontier found : List Int}

/-- The ids that a step of the worklist finds below one id. -/
def newBelow (ps : List Paragraph) (id : Int) (found : List Int) : List Int :=
  (ps.filter fun p => p.parent == some id && !found.contains p.id).map (·.id)

theorem mem_newBelow {x : Int} :
    x ∈ newBelow ps id found ↔ ∃ p ∈ ps, p.parent = some id ∧ p.id ∉ found ∧ p.id = x := by
  simp [newBelow, and_assoc]

theorem Collects.step (h : Collects ps top (id :: frontier) found) :
    Collects ps top (newBelow ps id found ++ frontier) (newBelow ps id found ++ found) where
  top_mem := List.mem_append_right _ h.top_mem
  frontier_subset := by
    intro x hx
    rcases List.mem_append.1 hx with hx | hx
    · exact List.mem_append_left _ hx
    · exact List.mem_append_right _ (h.frontier_subset (List.mem_cons_of_mem _ hx))
  within := by
    intro x hx
    rcases List.mem_append.1 hx with hx | hx
    · obtain ⟨p, hp, hid, -, rfl⟩ := mem_newBelow.1 hx
      have hw := h.within id (h.frontier_subset List.mem_cons_self)
      exact .inr ⟨p, hw.below hp hid, rfl⟩
    · exact h.within x hx
  complete := by
    intro p hp x hx hmem hnot
    rw [List.mem_append, not_or] at hnot
    have hxf : x ∈ found := (List.mem_append.1 hmem).resolve_left hnot.1
    by_cases hpf : p.id ∈ found
    · exact List.mem_append_right _ hpf
    · by_cases hxid : x = id
      · exact List.mem_append_left _ (mem_newBelow.2 ⟨p, hp, hxid ▸ hx, hpf, rfl⟩)
      · exact absurd (h.complete p hp x hx hxf (by simp [hxid, hnot.2])) hpf

/-- What a step finds was missing before and is not missing afterwards. -/
theorem length_newBelow_add_missing :
    (newBelow ps id found).length + (missing ps (newBelow ps id found ++ found)).length ≤
      (missing ps found).length := by
  have hsplit := List.length_eq_length_filter_add (l := missing ps found)
    (fun p => p.parent == some id)
  have h₁ : (newBelow ps id found).length =
      ((missing ps found).filter fun p => p.parent == some id).length := by
    unfold newBelow missing
    rw [List.length_map, List.filter_filter]
  have h₂ : (missing ps (newBelow ps id found ++ found)).length ≤
      ((missing ps found).filter fun p => !(p.parent == some id)).length := by
    unfold missing
    rw [List.filter_filter, ← List.countP_eq_length_filter, ← List.countP_eq_length_filter]
    apply List.countP_mono_left
    intro p hp hnot
    have hmem : p.id ∉ newBelow ps id found ∧ p.id ∉ found := by simpa using hnot
    have hpar : p.parent ≠ some id := fun he =>
      hmem.1 (mem_newBelow.2 ⟨p, hp, he, hmem.2, rfl⟩)
    simp [hpar, hmem.2]
  omega

/-- With enough steps the worklist ends with all that is within the subtree. -/
theorem Collects.closure {fuel : Nat} (h : Collects ps top frontier found)
    (hf : frontier.length + (missing ps found).length ≤ fuel) :
    ∃ found', Store.closure ps fuel frontier found = found' ∧ Collects ps top [] found' := by
  induction fuel generalizing frontier found with
  | zero =>
    have hnil : frontier = [] := List.eq_nil_of_length_eq_zero (by omega)
    subst hnil
    exact ⟨found, rfl, h⟩
  | succ fuel ih =>
    cases frontier with
    | nil => exact ⟨found, rfl, h⟩
    | cons id frontier =>
      refine ih h.step ?_
      have := @length_newBelow_add_missing ps id found
      rw [List.length_cons] at hf
      show (newBelow ps id found ++ frontier).length + _ ≤ fuel
      rw [List.length_append]
      show _ + (missing ps (newBelow ps id found ++ found)).length ≤ fuel
      omega

/-- Once the frontier is empty, all that is within the subtree has been found. -/
theorem Collects.mem_of_within (h : Collects ps top [] found) (hid : Within ps top id) :
    id ∈ found := by
  rcases hid with rfl | ⟨p, hp, rfl⟩
  · exact h.top_mem
  · induction hp with
    | child hp hid => exact h.complete _ hp _ hid h.top_mem List.not_mem_nil
    | deeper _ hp hid ih => exact h.complete _ hp _ hid ih List.not_mem_nil

theorem collects_start (ps : List Paragraph) (top : Int) : Collects ps top [top] [top] where
  top_mem := List.mem_singleton_self top
  frontier_subset := fun _ h => h
  within := fun _ hx => .inl (List.mem_singleton.1 hx)
  complete := fun _ _ _ _ hx hnot => absurd hx hnot

/-! ## Rounds -/

theorem mem_idsBelow {ids : List Int} {x : Int} :
    x ∈ idsBelow ps ids ↔ ∃ p ∈ ps, (∃ id ∈ ids, p.parent = some id) ∧ p.id = x := by
  unfold idsBelow
  simp only [List.mem_flatMap, List.mem_map, List.mem_filter, beq_iff_eq]
  constructor
  · rintro ⟨id, hid, p, ⟨hp, hparent⟩, rfl⟩
    exact ⟨p, hp, ⟨id, hid, hparent⟩, rfl⟩
  · rintro ⟨p, hp, ⟨id, hid, hparent⟩, rfl⟩
    exact ⟨id, hid, p, ⟨hp, hparent⟩, rfl⟩

/-- A round takes the whole frontier at once. -/
theorem Collects.round (h : Collects ps top frontier found) :
    Collects ps top (idsBelow ps frontier) (idsBelow ps frontier ++ found) where
  top_mem := List.mem_append_right _ h.top_mem
  frontier_subset := List.subset_append_left _ _
  within := by
    intro x hx
    rcases List.mem_append.1 hx with hx | hx
    · obtain ⟨p, hp, ⟨id, hid, hparent⟩, rfl⟩ := mem_idsBelow.1 hx
      exact .inr ⟨p, (h.within id (h.frontier_subset hid)).below hp hparent, rfl⟩
    · exact h.within x hx
  complete := by
    intro p hp x hx hmem hnot
    have hxf : x ∈ found := (List.mem_append.1 hmem).resolve_left hnot
    by_cases hfrontier : x ∈ frontier
    · exact List.mem_append_left _ (mem_idsBelow.2 ⟨p, hp, ⟨x, hfrontier, hx⟩, rfl⟩)
    · exact List.mem_append_right _ (h.complete p hp x hx hxf hfrontier)

/-- A round that finds nothing new is the last. -/
theorem Collects.last (h : Collects ps top frontier found) (hnew : idsBelow ps frontier ⊆ found) :
    Collects ps top [] found where
  top_mem := h.top_mem
  frontier_subset := List.nil_subset _
  within := h.within
  complete := by
    intro p hp x hx hxf _
    by_cases hfrontier : x ∈ frontier
    · exact hnew (mem_idsBelow.2 ⟨p, hp, ⟨x, hfrontier, hx⟩, rfl⟩)
    · exact h.complete p hp x hx hxf hfrontier

theorem length_missing_lt {found' : List Int} (hsub : found ⊆ found') {p : Paragraph}
    (hp : p ∈ ps) (hnot : p.id ∉ found) (hmem : p.id ∈ found') :
    (missing ps found').length < (missing ps found).length := by
  have hfilter : missing ps found' = (missing ps found).filter fun p => !found'.contains p.id := by
    unfold missing
    rw [List.filter_filter]
    apply List.filter_congr
    intro q _
    have : q.id ∈ found → q.id ∈ found' := fun hq => hsub hq
    by_cases hq : q.id ∈ found' <;> simp_all
  rw [hfilter, List.length_filter_lt_length_iff_exists]
  exact ⟨p, List.mem_filter.2 ⟨hp, by simpa using hnot⟩, by simpa using hmem⟩

/-- Enough rounds find all that is within the subtree. -/
theorem Collects.mem_rounds {fuel : Nat} (h : Collects ps top frontier found)
    (hf : (missing ps found).length ≤ fuel) (hid : Within ps top id) :
    id ∈ found ∨ id ∈ rounds ps fuel (idsBelow ps frontier) := by
  induction fuel generalizing frontier found with
  | zero =>
    left
    rcases hid with rfl | ⟨p, hp, rfl⟩
    · exact h.top_mem
    · have hnil : missing ps found = [] := List.eq_nil_of_length_eq_zero (by omega)
      simpa using List.filter_eq_nil_iff.1 hnil p hp.mem
  | succ fuel ih =>
    by_cases hnew : idsBelow ps frontier ⊆ found
    · exact .inl ((h.last hnew).mem_of_within hid)
    · simp only [List.subset_def, not_forall] at hnew
      obtain ⟨x, hx, hnot⟩ := hnew
      obtain ⟨p, hp, -, rfl⟩ := mem_idsBelow.1 hx
      have hsub : found ⊆ idsBelow ps frontier ++ found := List.subset_append_right _ _
      have hless := length_missing_lt hsub hp hnot (List.mem_append_left found hx)
      rw [rounds, List.mem_append]
      rcases ih h.round (by omega) with hmem | hmem
      · rcases List.mem_append.1 hmem with hmem | hmem
        · exact .inr (.inl hmem)
        · exact .inl hmem
      · exact .inr (.inr hmem)

theorem within_of_mem_rounds {fuel : Nat} {ids : List Int} (h : ∀ x ∈ ids, Within ps top x)
    (hid : id ∈ rounds ps fuel ids) : Within ps top id := by
  induction fuel generalizing ids with
  | zero => exact absurd hid List.not_mem_nil
  | succ fuel ih =>
    rw [rounds, List.mem_append] at hid
    rcases hid with hid | hid
    · exact h id hid
    · refine ih (fun x hx => ?_) hid
      obtain ⟨p, hp, ⟨y, hy, hparent⟩, rfl⟩ := mem_idsBelow.1 hx
      exact .inr ⟨p, (h y hy).below hp hparent, rfl⟩

end Worklist

/-- On either medium the ids of a subtree are its topmost one and those of the paragraphs below. -/
theorem mem_subtreeIds {s : Store} {top id : Int} :
    id ∈ s.subtreeIds top ↔ Within s.paragraphs top id := by
  have hstart := collects_start s.paragraphs top
  have hle : (missing s.paragraphs [top]).length ≤ s.paragraphs.length :=
    List.length_filter_le _ s.paragraphs
  unfold subtreeIds
  cases s.medium with
  | memory =>
    obtain ⟨found, hfound, hc⟩ := hstart.closure
      (show [top].length + _ ≤ s.paragraphs.length + 1 by rw [List.length_singleton]; omega)
    dsimp only
    rw [hfound]
    exact ⟨hc.within id, hc.mem_of_within⟩
  | database =>
    constructor
    · exact within_of_mem_rounds fun x hx => .inl (List.mem_singleton.1 hx)
    · intro hid
      rw [rounds, List.mem_append]
      exact hstart.mem_rounds hle hid

/-! ## Below a node of a forest -/

namespace Shows

variable {s : Store}

theorem mem_plug_iff {C : Hole} {g : Forest} (h : s.Shows (C.plug g)) {p : Paragraph} :
    p ∈ s.paragraphs ↔ p ∈ C.frame s.documentId ∨ p ∈ g.rows s.documentId C.parent := by
  rw [h.mem_iff, Hole.rows_plug, Multiset.mem_add]

theorem id_mem_of_mem_rows {doc : String} {parent : Option Int} {g : Forest} {p : Paragraph}
    (h : p ∈ g.rows doc parent) : p.id ∈ g.ids := by
  rcases Multiset.mem_add.1 h with h | h
  · exact (mem_heads (Multiset.mem_coe.1 h)).2.1
  · exact (mem_deeper h).1

/-- A paragraph is in a place exactly if its id is that of a node in it. -/
theorem mem_rows_iff {C : Hole} {g : Forest} (h : s.Shows (C.plug g)) {p : Paragraph}
    (hp : p ∈ s.paragraphs) : p ∈ g.rows s.documentId C.parent ↔ p.id ∈ g.ids := by
  refine ⟨id_mem_of_mem_rows, fun hid => (h.mem_plug_iff.1 hp).resolve_left ?_⟩
  intro hf
  exact List.disjoint_of_nodup_append (Hole.nodup_around h.nodup) (Hole.mem_frame hf).1 hid

/-- All nodes in a place are below the node that the place is right below. -/
theorem below_of_mem {top : Int} {g : Forest} : ∀ {i k : Int},
    (∀ p ∈ (g.heads s.documentId (some i) k : Multiset Paragraph) + g.deeper s.documentId,
      p ∈ s.paragraphs) →
    Within s.paragraphs top i →
    ∀ p ∈ (g.heads s.documentId (some i) k : Multiset Paragraph) + g.deeper s.documentId,
      Below s.paragraphs top p := by
  induction g with
  | nil =>
    intro id k _ _ p hp
    exact absurd hp (Multiset.notMem_zero p)
  | cons id' fields below rest ih₁ ih₂ =>
    intro id k hsub hw p hp
    simp only [heads, deeper, Multiset.mem_add, Multiset.mem_coe, List.mem_cons] at hsub hp
    have hhead : Below s.paragraphs top (row s.documentId (some id) k id' fields) :=
      hw.below (hsub _ (.inl (.inl rfl))) rfl
    have hbelow := ih₁ (i := id') (k := 1)
      (fun q hq => hsub q (.inr (.inl (by simpa using hq)))) (.inr ⟨_, hhead, rfl⟩) p
    have hrest := ih₂ (i := id) (k := k + 1)
      (fun q hq => hsub q (by
        rcases Multiset.mem_add.1 hq with hq | hq
        · exact .inl (.inr (Multiset.mem_coe.1 hq))
        · exact .inr (.inr hq))) hw p
    simp only [Multiset.mem_add, Multiset.mem_coe] at hbelow hrest
    rcases hp with (rfl | hp) | hp | hp
    · exact hhead
    · exact hrest (.inl hp)
    · exact hbelow hp
    · exact hrest (.inr hp)

/-- The paragraphs below a paragraph are the nodes below it. -/
theorem below_iff {C : Hole} {l b r : Forest} {id : Int} {fields : Fields}
    (h : s.Shows (C.plug (l ++ cons id fields b r))) {p : Paragraph} :
    Below s.paragraphs id p ↔ p ∈ s.paragraphs ∧ p.id ∈ b.ids := by
  have hplug : s.Shows ((Hole.under l id fields r C).plug b) := h
  have hn := Hole.nodup_around hplug.nodup
  constructor
  · intro hb
    -- A paragraph around the place has a parent that is none of the nodes in it.
    have key : ∀ p ∈ s.paragraphs, ∀ x, p.parent = some x → x = id ∨ x ∈ b.ids → p.id ∈ b.ids := by
      intro p hp x hx hmem
      rcases hplug.mem_plug_iff.1 hp with hf | hr
      · exfalso
        rcases hmem with rfl | hmem
        · exact Hole.parent_ne_of_mem_frame hn.of_append_left hf hx
        · exact List.disjoint_of_nodup_append hn ((Hole.mem_frame hf).2 x hx) hmem
      · exact id_mem_of_mem_rows hr
    induction hb with
    | child hp hid => exact ⟨hp, key _ hp _ hid (.inl rfl)⟩
    | deeper _ hp hid ih => exact ⟨hp, key _ hp _ hid (.inr ih.2)⟩
  · intro ⟨hp, hid⟩
    refine below_of_mem (g := b) (i := id) (k := 1)
      (fun q hq => hplug.mem_plug_iff.2 (.inr hq)) (.inl rfl) p ?_
    exact (hplug.mem_rows_iff hp).2 hid

theorem within_iff {C : Hole} {l b r : Forest} {id x : Int} {fields : Fields}
    (h : s.Shows (C.plug (l ++ cons id fields b r))) :
    Within s.paragraphs id x ↔ x = id ∨ x ∈ b.ids := by
  refine or_congr_right ⟨?_, ?_⟩
  · rintro ⟨p, hp, rfl⟩
    exact (h.below_iff.1 hp).2
  · intro hx
    have hmem : x ∈ (C.plug (l ++ cons id fields b r)).ids := by
      rw [(Hole.ids_plug_perm _ _).mem_iff, ids_append, ids_cons]
      simp [hx]
    obtain ⟨p, hp, rfl⟩ := h.mem_ids_iff.1 hmem
    exact ⟨p, h.below_iff.2 ⟨hp, hx⟩, rfl⟩

end Shows

end Bylaws.Store
