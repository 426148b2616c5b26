import Bylaws.Proofs.Ranks
import Bylaws.Proofs.Reference

/-!
# Numbers with blanks at their ends

A lookup passes over the blanks at the ends of a reference, but not over those at the ends of the
numbers that it compares it with. So a number that is shown is found again, at the first paragraph
that has it, just if there is no blank at its ends (`Store.numbers_looked_up`). The separator does
not matter for this, and the numerals have no blanks, so a format that begins or ends with a blank
is the only cause (`Numbering.Valid.trimmed_join`).
-/

namespace Bylaws

open Forest

/-! ## Numbers without blanks at their ends -/

namespace Level

theorem fillMark_append {before : List Char} (h : '#' ∉ before) (number after : List Char) :
    fillMark number (before ++ '#' :: after) = before ++ (number ++ after) := by
  induction before with
  | nil => rfl
  | cons c before ih =>
    rw [List.mem_cons, not_or] at h
    rw [List.cons_append, fillMark, if_neg (Ne.symm h.1), ih h.2]
    rfl

theorem render_eq {l : Level} {style : Style} (h : Style.ofName? l.style = some style) (n : Int) :
    l.render n = .ok (String.ofList (fillMark (style.write n).toList l.format.toList)) := by
  unfold render styleNamed
  rw [h]
  rfl

/-- A format that is filled with a numeral begins and ends as before, or with the numeral. -/
theorem trimmed_fillMark {number format : List Char} (hne : number ≠ [])
    (hnumber : ∀ c ∈ number, Text.isBlank c = false) (hmark : '#' ∈ format)
    (h : Text.Trimmed format) :
    fillMark number format ≠ [] ∧ Text.Trimmed (fillMark number format) := by
  obtain ⟨before, after, rfl, hbefore⟩ := List.eq_append_cons_of_mem hmark
  rw [fillMark_append hbefore]
  refine ⟨by simp [hne], fun c hc => ?_, fun c hc => ?_⟩
  · cases before with
    | nil =>
      rw [List.nil_append, List.head?_append, List.head?_eq_some_head hne] at hc
      obtain rfl := Option.some.inj hc
      exact hnumber _ (List.head_mem hne)
    | cons b before => exact h.head c hc
  · cases hafter : after.getLast? with
    | none =>
      obtain rfl := List.getLast?_eq_none_iff.1 hafter
      rw [List.append_nil, List.getLast?_append, List.getLast?_eq_some_getLast hne] at hc
      obtain rfl := Option.some.inj hc
      exact hnumber _ (List.getLast_mem hne)
    | some d =>
      rw [← List.append_assoc, List.getLast?_append, hafter] at hc
      refine h.last c ?_
      rw [List.getLast?_append, List.getLast?_cons, hafter]
      exact hc

end Level

namespace Numbering

variable {c : Numbering}

/-- All styles of a numbering exist, and its formats have a place for the rank. -/
structure Valid (c : Numbering) : Prop where
  styled : c.Styled
  marked : ∀ e ∈ c.levels, '#' ∈ e.2.format.toList

instance (c : Numbering) : Decidable c.Valid :=
  decidable_of_iff (c.Styled ∧ ∀ e ∈ c.levels, '#' ∈ e.2.format.toList)
    ⟨fun h => ⟨h.1, h.2⟩, fun h => ⟨h.styled, h.marked⟩⟩

/-- No format of a numbering begins or ends with a blank. -/
def Tight (c : Numbering) : Prop := ∀ e ∈ c.levels, Text.Trimmed e.2.format.toList

instance (c : Numbering) : Decidable c.Tight :=
  inferInstanceAs (Decidable (∀ e ∈ c.levels, Text.Trimmed e.2.format.toList))

/-- A rank as it is written under tight formats: not empty, and without blanks at its ends. -/
theorem Valid.trimmed_number (h : c.Valid) (ht : c.Tight) {n : Nat} (hn : 0 < n) {depth : Int}
    {text : String} (hx : c.number n depth = .ok text) :
    text.toList ≠ [] ∧ Text.Trimmed text.toList := by
  obtain ⟨l, hl, hstyle, hformat⟩ := h.styled.exists_levelAt depth
  obtain ⟨style, hs⟩ := Option.isSome_iff_exists.1 hstyle
  have htext : text.toList = Level.fillMark (style.write n).toList l.format.toList := by
    unfold number at hx
    rw [hl] at hx
    obtain rfl := Except.ok.inj ((Level.render_eq hs n).symm.trans hx)
    exact String.toList_ofList
  have hlevel : '#' ∈ l.format.toList ∧ Text.Trimmed l.format.toList := by
    rcases hformat with hplain | ⟨e, he, rfl⟩
    · rw [hplain]
      decide
    · exact ⟨h.marked e he, ht e he⟩
  have hnumeral : ∀ ch ∈ (style.write n).toList, Text.isBlank ch = false := fun ch hch =>
    isBlank_of_isAlphanum (Style.isAlphanum_of_mem_write hn ch hch)
  rw [htext]
  exact Level.trimmed_fillMark (style.write_ne_nil hn) hnumeral hlevel.1 hlevel.2

theorem Valid.trimmed_texts (h : c.Valid) (ht : c.Tight) {ranks : List Rank} {texts : List String}
    (hr : ∀ r ∈ ranks, 0 < r.count) (hx : c.texts ranks = .ok texts) :
    ∀ text ∈ texts, text.toList ≠ [] ∧ Text.Trimmed text.toList := by
  induction ranks generalizing texts with
  | nil =>
    obtain rfl := Except.ok.inj hx
    exact fun text hmem => absurd hmem List.not_mem_nil
  | cons r ranks ih =>
    unfold Numbering.texts at hx ih
    rw [List.forall_mem_cons] at hr
    rw [List.mapM_cons] at hx
    obtain ⟨text, htext, hx⟩ := Fault.bind_eq_ok hx
    obtain ⟨rest, hrest, hx⟩ := Fault.bind_eq_ok hx
    obtain rfl := Except.ok.inj hx
    exact List.forall_mem_cons.2 ⟨h.trimmed_number ht hr.1 htext, ih hr.2 hrest⟩

/-- Joined texts begin as the first of them and end as the last. -/
theorem trimmed_join {texts : List String}
    (h : ∀ text ∈ texts, text.toList ≠ [] ∧ Text.Trimmed text.toList) :
    Text.Trimmed (c.join texts).toList := by
  cases texts with
  | nil => exact ⟨nofun, nofun⟩
  | cons text texts =>
    rw [join_eq_ite]
    split
    · have hmem := List.getLast_mem (List.cons_ne_nil text texts)
      rw [List.getLast?_eq_some_getLast (List.cons_ne_nil text texts)]
      exact (h _ hmem).2
    · have hends : ∀ w ∈ text.toList :: texts.map String.toList,
          w ≠ [] ∧ ∀ ch ∈ w.getLast?, Text.isBlank ch = false := by
        intro w hw
        rw [← List.map_cons] at hw
        obtain ⟨u, hu, rfl⟩ := List.mem_map.1 hw
        exact ⟨(h u hu).1, (h u hu).2.last⟩
      rw [String.toList_intercalate, List.map_cons, intercalate_cons]
      refine ⟨fun ch hch => ?_, getLast?_append_separated hends⟩
      obtain ⟨hne, htrimmed⟩ := h text List.mem_cons_self
      rw [List.head?_append, List.head?_eq_some_head hne] at hch
      exact htrimmed.head ch (by rw [List.head?_eq_some_head hne]; exact hch)

end Numbering

theorem count_pos_of_mem_rankAfter {choices : Choices} {depth : Nat} {l : Forest} {fields : Fields}
    {r : Rank} (h : r ∈ l.rankAfter choices depth fields) : 0 < r.count := by
  unfold rankAfter at h
  split at h
  · obtain rfl := List.mem_singleton.1 h
    exact Nat.succ_pos _
  · exact absurd h List.not_mem_nil

theorem Hole.count_pos_of_mem_ranks {choices : Choices} {C : Hole} {r : Rank}
    (h : r ∈ C.ranks choices) : 0 < r.count := by
  induction C with
  | top => exact absurd h List.not_mem_nil
  | under left id fields right outer ih =>
    rcases List.mem_append.1 h with h | h
    · exact ih h
    · exact count_pos_of_mem_rankAfter h

namespace Store

variable {s : Store} {choices : Choices} {c : Numbering} {p q : Paragraph} {n : String}

/-- Numbers under tight formats have no blanks at their ends. -/
theorem Shows.trimmed_number? {f : Forest} (h : s.Shows f) (hc : c.Valid) (ht : c.Tight)
    (hp : p ∈ s.paragraphs) (hn : s.number? choices c p = .ok (some n)) :
    Text.Trimmed n.toList := by
  obtain ⟨C, l, b, r, rfl, hrow⟩ := h.exists_place hp
  rw [Int.add_comm] at hrow
  rw [hrow, h.number?_eq] at hn
  split at hn
  · cases hx : c.texts (C.ranks choices ++ l.rankAfter choices C.depth p.fields) with
    | error e =>
      rw [hx] at hn
      exact nomatch hn
    | ok texts =>
      rw [hx] at hn
      obtain rfl := Option.some.inj (Except.ok.inj hn)
      refine Numbering.trimmed_join (hc.trimmed_texts ht (fun r hr => ?_) hx)
      rcases List.mem_append.1 hr with hr | hr
      · exact Hole.count_pos_of_mem_ranks hr
      · exact count_pos_of_mem_rankAfter hr
  · exact nomatch hn

/-! ## Lookups -/

/-- The first paragraph of a document with a number. -/
def FirstWith (s : Store) (choices : Choices) (c : Numbering) (n : String) (q : Paragraph) : Prop :=
  ∃ before after, s.documentOrder = before ++ q :: after ∧
    s.number? choices c q = .ok (some n) ∧
    ∀ r ∈ before, s.number? choices c r ≠ .ok (some n)

/-- What is found among paragraphs whose numbers can be written. -/
theorem firstNumbered_cases {ps : List Paragraph}
    (h : ∀ q ∈ ps, ∃ number, s.number? choices c q = .ok number) (n : String) :
    (s.firstNumbered choices c n ps = .ok none ∧
      ∀ q ∈ ps, s.number? choices c q ≠ .ok (some n)) ∨
    ∃ before q after, ps = before ++ q :: after ∧
      s.firstNumbered choices c n ps = .ok (some q) ∧
      s.number? choices c q = .ok (some n) ∧
      ∀ r ∈ before, s.number? choices c r ≠ .ok (some n) := by
  induction ps with
  | nil => exact .inl ⟨rfl, fun q hq => absurd hq List.not_mem_nil⟩
  | cons p ps ih =>
    rw [List.forall_mem_cons] at h
    obtain ⟨number, hp⟩ := h.1
    have hfirst : s.firstNumbered choices c n (p :: ps) =
        if number = some n then .ok (some p) else s.firstNumbered choices c n ps := by
      rw [firstNumbered, hp]
      rfl
    rw [hfirst]
    by_cases hn : number = some n
    · rw [if_pos hn]
      exact .inr ⟨[], p, ps, rfl, rfl, hn ▸ hp, fun r hr => absurd hr List.not_mem_nil⟩
    · rw [if_neg hn]
      have hne : s.number? choices c p ≠ .ok (some n) := by
        rw [hp]
        exact fun he => hn (Except.ok.inj he)
      rcases ih h.2 with ⟨hnone, hall⟩ | ⟨before, q, after, hps, hsome, hq, hbefore⟩
      · exact .inl ⟨hnone, List.forall_mem_cons.2 ⟨hne, hall⟩⟩
      · exact .inr ⟨p :: before, q, after, congrArg _ hps, hsome, hq,
          List.forall_mem_cons.2 ⟨hne, hbefore⟩⟩

/-- A number is found again just if there is no blank at its ends: then the lookup comes to the
first paragraph in document order that has it, and otherwise it comes to none that has it. Where
no format begins or ends with a blank, this is so for every number. -/
theorem numbers_looked_up (h : s.Reachable) (hc : c.Valid) (hp : p ∈ s.paragraphs)
    (hn : s.number? choices c p = .ok (some n)) :
    (∃ found, s.byReference? choices c n = .ok found ∧
      (Text.Trimmed n.toList → ∃ q, found = some q ∧ s.FirstWith choices c n q) ∧
      (¬ Text.Trimmed n.toList → ∀ q ∈ found, s.number? choices c q ≠ .ok (some n))) ∧
    (c.Tight → Text.Trimmed n.toList) := by
  obtain ⟨f, hf⟩ := h.exists_shows
  refine ⟨?_, fun ht => hf.trimmed_number? hc ht hp hn⟩
  have hmem : p ∈ s.documentOrder := hf.documentOrder_perm.mem_iff.2 hp
  have hnumbers : ∀ q ∈ s.documentOrder, ∃ number, s.number? choices c q = .ok number := fun q hq =>
    hf.exists_number? choices hc.styled (hf.documentOrder_perm.mem_iff.1 hq)
  unfold byReference?
  by_cases ht : Text.Trimmed n.toList
  · rw [Text.trim_eq_self_iff.2 ht, String.ofList_toList]
    rcases firstNumbered_cases hnumbers n with ⟨-, hnone⟩ | ⟨before, q, after, hsplit, hq, hfirst⟩
    · exact absurd hn (hnone p hmem)
    · refine ⟨some q, hq, fun _ => ?_, fun hnot => absurd ht hnot⟩
      exact ⟨q, rfl, before, after, hsplit, hfirst⟩
  · have hne : String.ofList (Text.trim n.toList) ≠ n := by
      intro he
      have hchars := congrArg String.toList he
      rw [String.toList_ofList] at hchars
      exact ht (Text.trim_eq_self_iff.1 hchars)
    rcases firstNumbered_cases hnumbers (String.ofList (Text.trim n.toList)) with
      ⟨hnone, -⟩ | ⟨before, q, after, -, hq, hnumber, -⟩
    · exact ⟨none, hnone, fun h => absurd h ht, fun _ => nofun⟩
    · refine ⟨some q, hq, fun h => absurd h ht, fun _ r hr => ?_⟩
      obtain rfl : q = r := Option.some.inj hr
      rw [hnumber]
      exact fun he => hne (Option.some.inj (Except.ok.inj he))

/-- Parentheses around the ranks of the top level, and a blank after those of the next. -/
def spaced : Numbering := { levels := [(1, ⟨"decimal", "(#)"⟩), (2, ⟨"lower_roman", "# "⟩)] }

theorem numbers_looked_up_spaced :
    ∃ q, sample.byReference? {} spaced "(1)" = .ok (some q) ∧
      sample.FirstWith {} spaced "(1)" q := by
  have hn : sample.number? {} spaced (row "d" none 1 1 { body := "a" }) = .ok (some "(1)") := by cbv
  obtain ⟨⟨found, hfound, htrimmed, -⟩, -⟩ :=
    numbers_looked_up reachable_sample (by decide) (by decide) hn
  obtain ⟨q, rfl, hq⟩ := htrimmed (by decide)
  exact ⟨q, hfound, hq⟩

/-- A number that ends with a blank is shown, and the lookup by it comes to nothing. -/
theorem spaced_number_missed :
    spaced.Valid ∧ row "d" (some 1) 1 2 { body := "b" } ∈ sample.paragraphs ∧
      sample.number? {} spaced (row "d" (some 1) 1 2 { body := "b" }) = .ok (some "(1).i ") ∧
      sample.byReference? {} spaced "(1).i " = .ok none := by
  refine ⟨by decide, by decide, ?_, ?_⟩
  · cbv
  · cbv

end Store

end Bylaws
