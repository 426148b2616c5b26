import Bylaws.Proofs.Rendering.Omission
import Bylaws.Proofs.Rendering.Scene
import Bylaws.Topic

/-!
# What lookups come to

A lookup by number or by topic goes through all paragraphs of a document and asks of each whether
it is left out, but not whether one above it is. What it comes to has the number that it is found
under, and the outline puts that number in front of its text if the outline shows it
(`Store.lookups_located`). Below a paragraph that is left out a lookup still finds paragraphs that
no rendering shows (`Store.reference_to_hidden`).
-/

namespace Bylaws.Store

open Forest

variable {s : Store} {choices : Choices} {c : Numbering} {p : Paragraph} {n : String}

/-- A paragraph that a lookup comes to under a number: it has that number and is not left out
itself. If no paragraph above it is left out either, then the outline with numbers shows it,
behind this number; otherwise the outline does not have it. -/
structure Located (s : Store) (choices : Choices) (c : Numbering) (p : Paragraph) (n : String) :
    Prop where
  mem : p ∈ s.paragraphs
  isIncluded : p.isIncluded choices = true
  number?_eq : s.number? choices c p = .ok (some n)
  isShown_iff : ∃ above, s.lineage p = .ok (above ++ [p]) ∧
    (s.isShown choices p = true ↔ ∀ q ∈ above, q.isIncluded choices = true)
  outline : ∀ (v : View) (items : List Value), v.choices = choices → v.numbering = c →
    v.withNumbers = true → s.outline v .display = .ok items →
    ∃ S : Scene, items = S.items ∧
      S.passages.map (·.paragraph) = s.documentOrder.filter (s.isShown choices) ∧
      (s.isShown choices p = true → ∃ x ∈ S.passages, x.paragraph = p ∧
        ∃ text, Body.resolve? p.body choices v.insertions v.missing = some text ∧
          (x.text = numbered (some n) text ∨ x.text = numbered (some n) text ++ ";" ∨
            x.text = numbered (some n) text ++ "."))

theorem isIncluded_of_number? (h : s.number? choices c p = .ok (some n)) :
    p.isIncluded choices = true := by
  unfold number? at h
  by_cases hp : p.isNumbered choices = true
  · unfold Paragraph.isNumbered at hp
    simp only [Bool.and_eq_true] at hp
    exact hp.2
  · rw [if_neg hp] at h
    exact nomatch h

theorem displayText_of_number? {v : View} (hv : v.withNumbers = true)
    (h : s.number? v.choices v.numbering p = .ok (some n)) :
    ∃ text, Body.resolve? p.body v.choices v.insertions v.missing = some text ∧
      s.displayText v p = .ok (some (numbered (some n) text)) := by
  obtain ⟨text, hr, ht⟩ := displayText_of_included (s := s) (isIncluded_of_number? h)
  refine ⟨text, hr, ?_⟩
  rw [ht, hv, if_pos rfl, h]
  rfl

theorem Shows.located {f : Forest} (h : s.Shows f) (hp : p ∈ s.paragraphs)
    (hn : s.number? choices c p = .ok (some n)) : s.Located choices c p n where
  mem := hp
  isIncluded := isIncluded_of_number? hn
  number?_eq := hn
  isShown_iff := by
    obtain ⟨C, l, b, r, rfl, hplace⟩ := h.exists_place hp
    have hparent : p.parent = C.parent := by rw [hplace, row_parent]
    have hincluded := isIncluded_of_number? hn
    refine ⟨C.ancestors s.documentId, h.lineage_eq hparent, ?_⟩
    rw [h.isShown_eq hparent, hincluded, Bool.and_true, ← List.all_eq_true,
      Hole.all_isIncluded_ancestors]
  outline := by
    rintro v items rfl rfl hv ho
    rw [outline_eq_items] at ho
    rcases hS : s.scene v with e | S
    · rw [hS] at ho
      exact nomatch ho
    · rw [hS] at ho
      obtain rfl := Except.ok.inj ho
      have hpassages := h.map_paragraph_passages hS
      refine ⟨S, rfl, hpassages, fun hshown => ?_⟩
      have hmem : p ∈ S.passages.map (·.paragraph) := by
        rw [hpassages]
        exact List.mem_filter.2 ⟨h.documentOrder_perm.mem_iff.2 hp, hshown⟩
      obtain ⟨x, hx, rfl⟩ := List.mem_map.1 hmem
      obtain ⟨text, hr, ht⟩ := displayText_of_number? hv hn
      obtain ⟨shown, hd, hends⟩ := allShown_scene s v S hS x hx
      obtain rfl : numbered (some n) text = shown :=
        Option.some.inj (Except.ok.inj (ht.symm.trans hd))
      exact ⟨x, hx, rfl, text, hr, hends⟩

/-! ## By number -/

theorem firstNumbered_eq_ok {ps : List Paragraph}
    (h : s.firstNumbered choices c n ps = .ok (some p)) :
    p ∈ ps ∧ s.number? choices c p = .ok (some n) := by
  induction ps with
  | nil => exact nomatch h
  | cons q ps ih =>
    obtain ⟨number, hq, h⟩ := Fault.bind_eq_ok h
    split at h
    · rename_i hn
      obtain rfl : q = p := Option.some.inj (Except.ok.inj h)
      exact ⟨List.mem_cons_self, hn ▸ hq⟩
    · obtain ⟨hmem, hp⟩ := ih h
      exact ⟨List.mem_cons_of_mem q hmem, hp⟩

/-- Among paragraphs with the same numbers the same one is found. -/
theorem firstNumbered_congr {t : Store} {choices' : Choices} {ps : List Paragraph}
    (h : ∀ p ∈ ps, s.number? choices c p = t.number? choices' c p) :
    s.firstNumbered choices c n ps = t.firstNumbered choices' c n ps := by
  induction ps with
  | nil => rfl
  | cons p ps ih =>
    rw [List.forall_mem_cons] at h
    unfold firstNumbered
    rw [h.1, ih h.2]

/-! ## By topics -/

theorem numbersOf_congr {t : Store} {choices' : Choices} {ps qs : List Paragraph}
    (h : List.Forall₂ (fun p q => s.number? choices c p = t.number? choices' c q) ps qs) :
    s.numbersOf choices c ps = t.numbersOf choices' c qs := by
  induction h with
  | nil => rfl
  | cons hp _ ih =>
    unfold numbersOf
    rw [hp, ih]

theorem numbersOf_eq_ok {ps : List Paragraph} {numbers : List String}
    (h : s.numbersOf choices c ps = .ok numbers) :
    ∃ found : List (Paragraph × String), numbers = found.map Prod.snd ∧
      (found.map Prod.fst).Sublist ps ∧
      ∀ e ∈ found, s.number? choices c e.1 = .ok (some e.2) := by
  induction ps generalizing numbers with
  | nil =>
    obtain rfl := Except.ok.inj h
    exact ⟨[], rfl, .slnil, fun e he => absurd he List.not_mem_nil⟩
  | cons q ps ih =>
    obtain ⟨number, hq, h⟩ := Fault.bind_eq_ok h
    cases number with
    | none =>
      obtain ⟨found, hnumbers, hsub, hfound⟩ := ih h
      exact ⟨found, hnumbers, hsub.cons q, hfound⟩
    | some n =>
      obtain ⟨rest, hrest, h⟩ := Fault.bind_eq_ok h
      obtain rfl := Except.ok.inj h
      obtain ⟨found, rfl, hsub, hfound⟩ := ih hrest
      exact ⟨(q, n) :: found, rfl, hsub.cons_cons q, List.forall_mem_cons.2 ⟨hq, hfound⟩⟩

theorem mem_of_mem_withTopics {topics : List Value} (h : p ∈ s.withTopics choices topics) :
    p ∈ s.paragraphs :=
  List.mem_of_mem_filter ((sortBy_perm _ _).mem_iff.1 h)

/-- What a lookup by number comes to has that number, and the numbers that a lookup by topics
writes are those of paragraphs; each of these is in the outline with its number in front, unless
a paragraph above it is left out. -/
theorem lookups_located (h : s.Reachable) (choices : Choices) (c : Numbering) :
    (∀ reference p, s.byReference? choices c reference = .ok (some p) →
      s.Located choices c p (String.ofList (Text.trim reference.toList))) ∧
    ∀ topics consolidated text, s.topicNumbers choices c topics consolidated = .ok text →
      ∃ found : List (Paragraph × String),
        (if consolidated then consolidate (found.map Prod.snd)
          else .ok (String.intercalate ", " (found.map Prod.snd))) = .ok text ∧
        (found.map Prod.fst).Sublist (s.withTopics choices topics) ∧
        ∀ e ∈ found, s.Located choices c e.1 e.2 := by
  obtain ⟨f, hf⟩ := h.exists_shows
  constructor
  · intro reference p hfound
    obtain ⟨hmem, hn⟩ := firstNumbered_eq_ok hfound
    exact hf.located (hf.documentOrder_perm.mem_iff.1 hmem) hn
  · intro topics consolidated text htext
    obtain ⟨numbers, hnumbers, htext⟩ := Fault.bind_eq_ok htext
    obtain ⟨found, rfl, hsub, hfound⟩ := numbersOf_eq_ok hnumbers
    refine ⟨found, ?_, hsub, fun e he => ?_⟩
    · cases consolidated <;> exact htext
    · exact hf.located (mem_of_mem_withTopics (hsub.mem (List.mem_map_of_mem he))) (hfound e he)

/-- A paragraph that is left out unless a choice is made, with one below it. -/
def orphaned : Store :=
  (Session.run { store := { documentId := "d" } }
    [.edit (.append { body := "#rticles#true#x A" } none),
      .edit (.append { body := "B" } (some 1))]).store

theorem reachable_orphaned : orphaned.Reachable :=
  ⟨_, _, fresh_empty .memory "d", by simp [Event.Holdable, Edit.Holdable], rfl, rfl⟩

/-- The paragraph below the one that is left out. -/
def orphan : Paragraph :=
  { body := "B", id := 2, documentId := "d", parent := some 1, position := 1 }

theorem forest_orphaned : orphaned.forest =
    [.mk { body := "#rticles#true#x A", id := 1, documentId := "d", parent := none, position := 1 }
      [.mk orphan []]] := rfl

/-- A lookup can come to a paragraph of a document that shows nothing at all. -/
theorem reference_to_hidden :
    orphaned.byReference? {} {} "1" = .ok (some orphan) ∧ orphaned.isShown {} orphan = false ∧
      orphaned.outline { withNumbers := true } .display = .ok [] := by
  refine ⟨rfl, rfl, ?_⟩
  unfold outline
  simp only [forest_orphaned, foldForest]
  rfl

theorem lookups_located_orphaned : orphaned.Located {} {} orphan "1" := by
  obtain ⟨hreference, -⟩ := lookups_located reachable_orphaned {} {}
  exact hreference "1" orphan rfl

end Bylaws.Store
