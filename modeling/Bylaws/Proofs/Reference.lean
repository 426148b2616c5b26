import Bylaws.Proofs.Lookup
import Bylaws.Proofs.Numeral
import Bylaws.Proofs.Trim

/-!
# Numbers as references

Where each depth writes just the rank, and a separator without letters and digits stands between
the ranks, a number can be taken apart again (`Numbering.texts_injective`). If besides there is
nothing below a paragraph that has no rank, the ranks lead to one place in the document only
(`Hole.eq_of_ranks`). Then distinct paragraphs have distinct numbers, and each is found by its
own (`Store.numbers_identify`).
-/

namespace Bylaws

open Forest

/-! ## Texts with separators -/

section Separators

variable {sep : List Char}

/-- Texts that are each preceded by a separator. -/
def separated (sep : List Char) (ws : List (List Char)) : List Char := (ws.map (sep ++ ·)).flatten

theorem separated_cons (sep w : List Char) (ws : List (List Char)) :
    separated sep (w :: ws) = sep ++ (w ++ separated sep ws) := by
  rw [separated, List.map_cons, List.flatten_cons, List.append_assoc]
  rfl

theorem intercalate_cons (sep w : List Char) (ws : List (List Char)) :
    List.intercalate sep (w :: ws) = w ++ separated sep ws := by
  induction ws generalizing w with
  | nil =>
    rw [List.intercalate_singleton]
    exact (List.append_nil w).symm
  | cons v ws ih => rw [List.intercalate_cons_cons, ih, List.append_assoc, separated_cons]

theorem takeWhile_separated (hne : sep ≠ []) (hsep : ∀ c ∈ sep, c.isAlphanum = false)
    (ws : List (List Char)) : (separated sep ws).takeWhile Char.isAlphanum = [] := by
  cases ws with
  | nil => rfl
  | cons w ws =>
    cases sep with
    | nil => exact absurd rfl hne
    | cons c sep => exact List.takeWhile_cons_of_neg (by simp [hsep c List.mem_cons_self])

/-- What comes first in front of separators is told by its letters and digits. -/
theorem append_separated_inj (hne : sep ≠ []) (hsep : ∀ c ∈ sep, c.isAlphanum = false)
    {v w : List Char} (hv : ∀ c ∈ v, c.isAlphanum = true) (hw : ∀ c ∈ w, c.isAlphanum = true)
    {vs ws : List (List Char)} (h : v ++ separated sep vs = w ++ separated sep ws) :
    v = w ∧ separated sep vs = separated sep ws := by
  have htake := congrArg (List.takeWhile Char.isAlphanum) h
  rw [List.takeWhile_append_of_pos hv, List.takeWhile_append_of_pos hw,
    takeWhile_separated hne hsep, takeWhile_separated hne hsep, List.append_nil,
    List.append_nil] at htake
  obtain rfl := htake
  exact ⟨rfl, List.append_cancel_left h⟩

theorem separated_injective (hne : sep ≠ []) (hsep : ∀ c ∈ sep, c.isAlphanum = false)
    {vs ws : List (List Char)} (hv : ∀ v ∈ vs, ∀ c ∈ v, c.isAlphanum = true)
    (hw : ∀ w ∈ ws, ∀ c ∈ w, c.isAlphanum = true) (h : separated sep vs = separated sep ws) :
    vs = ws := by
  induction vs generalizing ws with
  | nil =>
    cases ws with
    | nil => rfl
    | cons w ws =>
      rw [separated_cons] at h
      exact absurd (List.append_eq_nil_iff.1 h.symm).1 hne
  | cons v vs ih =>
    cases ws with
    | nil =>
      rw [separated_cons] at h
      exact absurd (List.append_eq_nil_iff.1 h).1 hne
    | cons w ws =>
      rw [List.forall_mem_cons] at hv hw
      rw [separated_cons, separated_cons] at h
      obtain ⟨rfl, hrest⟩ := append_separated_inj hne hsep hv.1 hw.1 (List.append_cancel_left h)
      rw [ih hv.2 hw.2 hrest]

/-- Joined texts of letters and digits can be taken apart at the separators. -/
theorem intercalate_injective (hne : sep ≠ []) (hsep : ∀ c ∈ sep, c.isAlphanum = false)
    {vs ws : List (List Char)} (hv : ∀ v ∈ vs, ∀ c ∈ v, c.isAlphanum = true)
    (hw : ∀ w ∈ ws, ∀ c ∈ w, c.isAlphanum = true) (hvs : vs ≠ []) (hws : ws ≠ [])
    (h : List.intercalate sep vs = List.intercalate sep ws) : vs = ws := by
  cases vs with
  | nil => exact absurd rfl hvs
  | cons v vs =>
    cases ws with
    | nil => exact absurd rfl hws
    | cons w ws =>
      rw [List.forall_mem_cons] at hv hw
      rw [intercalate_cons, intercalate_cons] at h
      obtain ⟨rfl, hrest⟩ := append_separated_inj hne hsep hv.1 hw.1 h
      rw [separated_injective hne hsep hv.2 hw.2 hrest]

/-- A row of texts that are not empty ends as the last of them does. -/
theorem getLast?_append_separated {P : Char → Prop} {w : List Char} {ws : List (List Char)}
    (hw : ∀ v ∈ w :: ws, v ≠ [] ∧ ∀ c ∈ v.getLast?, P c) :
    ∀ c ∈ (w ++ separated sep ws).getLast?, P c := by
  induction ws generalizing w with
  | nil =>
    intro c hc
    rw [show separated sep [] = [] from rfl, List.append_nil] at hc
    exact (hw w List.mem_cons_self).2 c hc
  | cons v ws ih =>
    intro c hc
    rw [List.forall_mem_cons] at hw
    rw [separated_cons, ← List.append_assoc, List.getLast?_append, Option.mem_def,
      Option.or_eq_some_iff] at hc
    rcases hc with hc | ⟨hnone, -⟩
    · exact ih hw.2 c hc
    · have hv := (List.append_eq_nil_iff.1 (List.getLast?_eq_none_iff.1 hnone)).1
      exact absurd hv (hw.2 v List.mem_cons_self).1

end Separators

/-! ## Numbers as they are written -/

/-- Numbers that can be taken apart: each depth writes just the rank, in one of the styles, and
all ranks are written, with a separator between them that has no letters or digits of ASCII. -/
structure Numbering.Separable (c : Numbering) : Prop where
  whole : c.innermostOnly = false
  plain : ∀ depth : Nat, 1 ≤ depth → ∃ style : Style, c.levelAt depth = .ok ⟨style.name, "#"⟩
  separator_ne : c.separator ≠ ""
  separator_apart : ∀ ch ∈ c.separator.toList, ch.isAlphanum = false

/-- Ranks of which each is one level deeper than the one before. -/
def Consecutive : Nat → List Rank → Prop
  | _, [] => True
  | depth, r :: rest => r.depth = depth ∧ 0 < r.count ∧ Consecutive (depth + 1) rest

theorem consecutive_append {depth : Nat} {ranks ranks' : List Rank} :
    Consecutive depth (ranks ++ ranks') ↔
      Consecutive depth ranks ∧ Consecutive (depth + ranks.length) ranks' := by
  induction ranks generalizing depth with
  | nil => simp [Consecutive]
  | cons r ranks ih =>
    have hd : depth + (r :: ranks).length = depth + 1 + ranks.length := by
      rw [List.length_cons]
      omega
    rw [List.cons_append, Consecutive, Consecutive, ih, hd, and_assoc, and_assoc]

namespace Numbering

variable {c : Numbering}

theorem join_eq (h : c.innermostOnly = false) (parts : List String) :
    c.join parts = String.intercalate c.separator parts := by
  unfold join
  cases hl : parts.getLast? with
  | none =>
    obtain rfl := List.getLast?_eq_none_iff.1 hl
    rfl
  | some last => simp [h]

theorem number_eq {n : Nat} {depth : Nat} {style : Style}
    (h : c.levelAt depth = .ok ⟨style.name, "#"⟩) : c.number n depth = .ok (style.write n) := by
  unfold number
  rw [h]
  show Level.render ⟨style.name, "#"⟩ n = _
  simp [Level.render, Level.styleNamed, Style.ofName?_name, Level.fillMark]
  rfl

/-- A text is what a rank is written as. -/
def Writes (c : Numbering) (r : Rank) (text : String) : Prop :=
  0 < r.count ∧ ∃ style : Style, c.levelAt r.depth = .ok ⟨style.name, "#"⟩ ∧
    text = style.write r.count

theorem Writes.count_eq {r r' : Rank} {text : String} (h : c.Writes r text)
    (h' : c.Writes r' text) (hd : r.depth = r'.depth) : r.count = r'.count := by
  obtain ⟨hr, style, hlevel, htext⟩ := h
  obtain ⟨hr', style', hlevel', htext'⟩ := h'
  rw [hd, hlevel'] at hlevel
  have hname : style'.name = style.name := congrArg Level.style (Except.ok.inj hlevel)
  obtain rfl : style' = style := by
    have hof := congrArg Style.ofName? hname
    rw [Style.ofName?_name, Style.ofName?_name] at hof
    exact Option.some.inj hof
  have hvalue := style'.value_write hr
  rw [← htext, htext', style'.value_write hr'] at hvalue
  omega

theorem Writes.isAlphanum {r : Rank} {text : String} (h : c.Writes r text) :
    ∀ ch ∈ text.toList, ch.isAlphanum = true := by
  obtain ⟨hr, style, -, rfl⟩ := h
  exact Style.isAlphanum_of_mem_write hr

theorem Writes.ne_nil {r : Rank} {text : String} (h : c.Writes r text) : text.toList ≠ [] := by
  obtain ⟨hr, style, -, rfl⟩ := h
  exact style.write_ne_nil hr

theorem Separable.exists_texts (h : c.Separable) {depth : Nat} (hd : 1 ≤ depth)
    {ranks : List Rank} (hr : Consecutive depth ranks) :
    ∃ texts, c.texts ranks = .ok texts ∧ List.Forall₂ c.Writes ranks texts := by
  induction ranks generalizing depth with
  | nil => exact ⟨[], rfl, .nil⟩
  | cons r ranks ih =>
    obtain ⟨rfl, hcount, hrest⟩ := hr
    obtain ⟨style, hlevel⟩ := h.plain r.depth hd
    obtain ⟨texts, htexts, hwrites⟩ := ih (by omega) hrest
    refine ⟨style.write r.count :: texts, ?_, .cons ⟨hcount, style, hlevel, rfl⟩ hwrites⟩
    unfold Numbering.texts at htexts ⊢
    rw [List.mapM_cons, number_eq hlevel, htexts]
    rfl

/-- From their texts ranks on the way down are known again. -/
theorem texts_injective {depth : Nat} {ranks ranks' : List Rank} {texts : List String}
    (hr : Consecutive depth ranks) (hr' : Consecutive depth ranks')
    (h : List.Forall₂ c.Writes ranks texts) (h' : List.Forall₂ c.Writes ranks' texts) :
    ranks = ranks' := by
  induction h generalizing depth ranks' with
  | nil =>
    cases h'
    rfl
  | @cons r text ranks texts hw _ ih =>
    cases h' with
    | @cons r' _ ranks' _ hw' hrest' =>
      obtain ⟨hdepth, -, hrest⟩ := hr
      obtain ⟨hdepth', -, hrest''⟩ := hr'
      have hd : r.depth = r'.depth := hdepth.trans hdepth'.symm
      have hcount := hw.count_eq hw' hd
      rw [ih hrest hrest'' hrest']
      obtain ⟨count, depth⟩ := r
      obtain ⟨count', depth'⟩ := r'
      obtain rfl : count = count' := hcount
      obtain rfl : depth = depth' := hd
      rfl

theorem apart_of_writes {ranks : List Rank} {texts : List String}
    (h : List.Forall₂ c.Writes ranks texts) :
    ∀ w ∈ texts.map String.toList, w ≠ [] ∧ ∀ ch ∈ w, ch.isAlphanum = true := by
  induction h with
  | nil => exact fun _ hw => absurd hw List.not_mem_nil
  | cons hw _ ih => exact List.forall_mem_cons.2 ⟨⟨hw.ne_nil, hw.isAlphanum⟩, ih⟩

theorem Separable.toList_join (h : c.Separable) (texts : List String) :
    (c.join texts).toList =
      List.intercalate c.separator.toList (texts.map String.toList) := by
  rw [join_eq h.whole, String.toList_intercalate]

theorem Separable.separator_ne_nil (h : c.Separable) : c.separator.toList ≠ [] := by
  intro he
  exact h.separator_ne (String.toList_injective he)

/-- Ranks on the way down are known by the number that they make. -/
theorem Separable.join_injective (h : c.Separable) {depth : Nat} {ranks ranks' : List Rank}
    {texts texts' : List String} (hr : Consecutive depth ranks) (hr' : Consecutive depth ranks')
    (hw : List.Forall₂ c.Writes ranks texts) (hw' : List.Forall₂ c.Writes ranks' texts')
    (hne : ranks ≠ []) (hne' : ranks' ≠ []) (hj : c.join texts = c.join texts') :
    ranks = ranks' := by
  have hparts : ∀ {rs : List Rank} {ts : List String}, List.Forall₂ c.Writes rs ts → rs ≠ [] →
      ts.map String.toList ≠ [] := by
    intro rs ts hts hrs he
    obtain rfl := List.map_eq_nil_iff.1 he
    cases hts
    exact hrs rfl
  have hlists := congrArg String.toList hj
  rw [h.toList_join, h.toList_join] at hlists
  have htexts := intercalate_injective h.separator_ne_nil h.separator_apart
    (fun w hmem => (apart_of_writes hw w hmem).2) (fun w hmem => (apart_of_writes hw' w hmem).2)
    (hparts hw hne) (hparts hw' hne') hlists
  have hinj : Function.Injective (List.map String.toList) :=
    List.map_injective_iff.2 fun _ _ he => String.toList_injective he
  obtain rfl := hinj htexts
  exact texts_injective hr hr' hw hw'

/-- A number has no blanks at its ends. -/
theorem Separable.trim_join (h : c.Separable) {ranks : List Rank} {texts : List String}
    (hw : List.Forall₂ c.Writes ranks texts) :
    String.ofList (Text.trim (c.join texts).toList) = c.join texts := by
  have hapart := apart_of_writes hw
  suffices Text.trim (c.join texts).toList = (c.join texts).toList by
    rw [this, String.ofList_toList]
  rw [h.toList_join]
  generalize texts.map String.toList = ws at hapart
  cases ws with
  | nil => rfl
  | cons w ws =>
    rw [intercalate_cons]
    refine trim_eq_self (fun ch hch => ?_) fun ch hch => ?_
    · obtain ⟨hne, halnum⟩ := hapart w List.mem_cons_self
      rw [List.head?_append, List.head?_eq_some_head hne] at hch
      obtain rfl := Option.some.inj hch
      exact isBlank_of_isAlphanum (halnum _ (List.head_mem hne))
    · have hends : ∀ v ∈ w :: ws, v ≠ [] ∧ ∀ ch ∈ v.getLast?, ch.isAlphanum = true := fun v hv =>
        ⟨(hapart v hv).1, fun ch hch => (hapart v hv).2 ch (List.mem_of_getLast? hch)⟩
      exact isBlank_of_isAlphanum (getLast?_append_separated hends ch hch)

end Numbering

/-! ## Ways down a forest -/

section Ways

variable {choices : Choices}

theorem rankAfter_of_numbered {fields : Fields} (h : fields.isNumbered choices = true)
    (depth : Nat) (l : Forest) :
    l.rankAfter choices depth fields = [⟨l.numbered choices + 1, depth⟩] := if_pos h

/-- A numbered node is known by how many there are to its left. -/
theorem below_eq_of_numbered {l l' b b' r r' : Forest} {id id' : Int} {fields fields' : Fields}
    (hn : fields.isNumbered choices = true) (hn' : fields'.isNumbered choices = true)
    (hc : l.numbered choices = l'.numbered choices)
    (h : l ++ cons id fields b r = l' ++ cons id' fields' b' r') : id = id' ∧ b = b' := by
  induction l generalizing l' with
  | nil =>
    cases l' with
    | nil =>
      obtain ⟨rfl, -, rfl, -⟩ := Forest.cons.inj h
      exact ⟨rfl, rfl⟩
    | cons i f below rest =>
      obtain ⟨-, rfl, -, -⟩ := Forest.cons.inj h
      simp only [Forest.numbered, hn, if_true] at hc
      omega
  | cons i f below rest _ ih =>
    cases l' with
    | nil =>
      obtain ⟨-, rfl, -, -⟩ := Forest.cons.inj h
      simp only [Forest.numbered, hn', if_true] at hc
      omega
    | cons i' f' below' rest' =>
      obtain ⟨-, rfl, -, hrest⟩ := Forest.cons.inj h
      exact ih (Nat.add_left_cancel hc) hrest

namespace Hole

/-- All nodes on the way down to a hole are numbered. -/
def Numbered (choices : Choices) : Hole → Prop
  | top => True
  | under _ _ fields _ outer => fields.isNumbered choices = true ∧ outer.Numbered choices

theorem length_ranks {C : Hole} (h : C.Numbered choices) :
    1 + (C.ranks choices).length = C.depth := by
  induction C with
  | top => rfl
  | under left id fields right outer ih =>
    rw [ranks, rankAfter_of_numbered h.1, List.length_append, depth, ← ih h.2]
    simp only [List.length_singleton]
    omega

theorem consecutive_ranks {C : Hole} (h : C.Numbered choices) :
    Consecutive 1 (C.ranks choices) := by
  induction C with
  | top => trivial
  | under left id fields right outer ih =>
    rw [ranks, rankAfter_of_numbered h.1, consecutive_append, length_ranks h.2]
    exact ⟨ih h.2, rfl, Nat.succ_pos _, trivial⟩

/-- Equal ranks lead down to the same place. -/
theorem plug_inj_of_ranks {C C' : Hole} (hC : C.Numbered choices) (hC' : C'.Numbered choices)
    (hr : C.ranks choices = C'.ranks choices) {g g' : Forest} (h : C.plug g = C'.plug g') :
    g = g' := by
  induction C generalizing C' g g' with
  | top =>
    cases C' with
    | top => exact h
    | under left' id' fields' right' outer' =>
      rw [ranks, ranks, rankAfter_of_numbered hC'.1] at hr
      simp at hr
  | under left id fields right outer ih =>
    rw [ranks, rankAfter_of_numbered hC.1] at hr
    cases C' with
    | top =>
      rw [ranks] at hr
      simp at hr
    | under left' id' fields' right' outer' =>
      rw [ranks, rankAfter_of_numbered hC'.1] at hr
      obtain ⟨houter, hlast⟩ := List.append_inj' hr rfl
      have hcount : left.numbered choices = left'.numbered choices :=
        Nat.succ.inj (congrArg Rank.count (List.singleton_injective hlast))
      exact (below_eq_of_numbered hC.1 hC'.1 hcount (ih hC.2 hC'.2 houter h)).2

/-- Equal ranks lead down to the same node. -/
theorem id_eq_of_ranks {C C' : Hole} {l l' b b' r r' : Forest} {id id' : Int}
    {fields fields' : Fields} (hC : C.Numbered choices) (hC' : C'.Numbered choices)
    (hn : fields.isNumbered choices = true) (hn' : fields'.isNumbered choices = true)
    (hr : C.ranks choices ++ l.rankAfter choices C.depth fields =
      C'.ranks choices ++ l'.rankAfter choices C'.depth fields')
    (h : C.plug (l ++ cons id fields b r) = C'.plug (l' ++ cons id' fields' b' r')) :
    id = id' := by
  rw [rankAfter_of_numbered hn, rankAfter_of_numbered hn'] at hr
  obtain ⟨houter, hlast⟩ := List.append_inj' hr rfl
  have hcount : l.numbered choices = l'.numbered choices :=
    Nat.succ.inj (congrArg Rank.count (List.singleton_injective hlast))
  exact (below_eq_of_numbered hn hn' hcount (plug_inj_of_ranks hC hC' houter h)).1

end Hole

end Ways

/-! ## Numbers of a document -/

namespace Store

variable {s : Store} {choices : Choices} {c : Numbering}

/-- Only numbered paragraphs have others below them. -/
def Branches (s : Store) (choices : Choices) : Prop :=
  ∀ p ∈ s.paragraphs, ∀ q ∈ s.paragraphs, q.parent = some p.id → p.isNumbered choices = true

theorem Shows.numbered_hole {C : Hole} {l b r : Forest} {id : Int} {fields : Fields}
    (h : s.Shows (C.plug (l ++ cons id fields b r))) (hb : s.Branches choices) :
    C.Numbered choices := by
  induction C generalizing l id fields b r with
  | top => trivial
  | under left i f right outer ih =>
    have ho : s.Shows (outer.plug (left ++ cons i f (l ++ cons id fields b r) right)) := h
    exact ⟨hb _ ho.row_mem _ h.row_mem rfl, ih ho⟩

/-- The number of a numbered paragraph, with the ranks on the way down to it. -/
theorem Shows.exists_number {f : Forest} (h : s.Shows f) (hb : s.Branches choices)
    (hc : c.Separable) {p : Paragraph} (hp : p ∈ s.paragraphs)
    (hn : p.isNumbered choices = true) :
    ∃ (C : Hole) (l b r : Forest) (texts : List String),
      f = C.plug (l ++ cons p.id p.fields b r) ∧
      C.Numbered choices ∧
      Consecutive 1 (C.ranks choices ++ l.rankAfter choices C.depth p.fields) ∧
      List.Forall₂ c.Writes (C.ranks choices ++ l.rankAfter choices C.depth p.fields) texts ∧
      s.number? choices c p = .ok (some (c.join texts)) := by
  obtain ⟨C, l, b, r, rfl, hrow⟩ := h.exists_place hp
  have hfields : p.fields.isNumbered choices = true := hn
  have hC := h.numbered_hole hb
  have hranks : Consecutive 1 (C.ranks choices ++ l.rankAfter choices C.depth p.fields) := by
    rw [rankAfter_of_numbered hfields, consecutive_append, Hole.length_ranks hC]
    exact ⟨Hole.consecutive_ranks hC, rfl, Nat.succ_pos _, trivial⟩
  obtain ⟨texts, htexts, hwrites⟩ := hc.exists_texts (Nat.le_refl 1) hranks
  refine ⟨C, l, b, r, texts, rfl, hC, hranks, hwrites, ?_⟩
  rw [hrow, Int.add_comm, h.number?_eq, if_pos hfields, htexts]
  rfl

/-- Paragraphs with the same number are the same. -/
theorem Shows.eq_of_number?_eq {f : Forest} (h : s.Shows f) (hb : s.Branches choices)
    (hc : c.Separable) {p q : Paragraph} (hp : p ∈ s.paragraphs) (hq : q ∈ s.paragraphs)
    (hpn : p.isNumbered choices = true) (hqn : q.isNumbered choices = true)
    (he : s.number? choices c p = s.number? choices c q) : p = q := by
  obtain ⟨C, l, b, r, texts, hf, hC, hranks, hw, hnumber⟩ := h.exists_number hb hc hp hpn
  obtain ⟨C', l', b', r', texts', hf', hC', hranks', hw', hnumber'⟩ :=
    h.exists_number hb hc hq hqn
  have hne : ∀ (C : Hole) (l : Forest) {fields : Fields}, fields.isNumbered choices = true →
      C.ranks choices ++ l.rankAfter choices C.depth fields ≠ [] := by
    intro C l fields hfields
    rw [rankAfter_of_numbered hfields]
    simp
  rw [hnumber, hnumber'] at he
  have hjoin : c.join texts = c.join texts' := Option.some.inj (Except.ok.inj he)
  have hr := hc.join_injective hranks hranks' hw hw' (hne C l hpn) (hne C' l' hqn) hjoin
  exact h.eq_of_id_eq hp hq (Hole.id_eq_of_ranks hC hC' hpn hqn hr (hf.symm.trans hf'))

/-- A paragraph is found by its number if no other has it. -/
theorem firstNumbered_of_unique {ps : List Paragraph} {p : Paragraph} {n : String} (hp : p ∈ ps)
    (hn : s.number? choices c p = .ok (some n))
    (hall : ∀ q ∈ ps, (∃ m, s.number? choices c q = .ok m) ∧
      (s.number? choices c q = .ok (some n) → q = p)) :
    s.firstNumbered choices c n ps = .ok (some p) := by
  induction ps with
  | nil => exact absurd hp List.not_mem_nil
  | cons q ps ih =>
    rw [List.forall_mem_cons] at hall
    obtain ⟨⟨⟨m, hm⟩, hq⟩, hrest⟩ := hall
    show (s.number? choices c q >>= fun m =>
      if m = some n then .ok (some q) else s.firstNumbered choices c n ps) = _
    rw [hm]
    show (if m = some n then .ok (some q) else s.firstNumbered choices c n ps) = _
    by_cases he : m = some n
    · rw [if_pos he, hq (he ▸ hm)]
    · rw [if_neg he]
      refine ih ?_ hrest
      rcases List.mem_cons.1 hp with rfl | hp
      · rw [hn] at hm
        exact absurd (Except.ok.inj hm).symm he
      · exact hp

theorem number?_of_not_numbered {p : Paragraph} (h : ¬ p.isNumbered choices = true) :
    s.number? choices c p = .ok none := if_neg h

/-- Where only numbered paragraphs have others below them, and numbers can be taken apart, each
numbered paragraph has a number that no other has, and is found by it. -/
theorem numbers_identify (h : s.Reachable) (hb : s.Branches choices) (hc : c.Separable) :
    (∀ p ∈ s.paragraphs, p.isNumbered choices = true →
      ∃ n, s.number? choices c p = .ok (some n) ∧
        s.byReference? choices c n = .ok (some p)) ∧
    ∀ p ∈ s.paragraphs, ∀ q ∈ s.paragraphs, p.isNumbered choices = true →
      q.isNumbered choices = true → p ≠ q → s.number? choices c p ≠ s.number? choices c q := by
  obtain ⟨f, hf⟩ := h.exists_shows
  constructor
  · intro p hp hn
    obtain ⟨C, l, b, r, texts, -, -, -, hw, hnumber⟩ := hf.exists_number hb hc hp hn
    refine ⟨c.join texts, hnumber, ?_⟩
    unfold byReference?
    rw [hc.trim_join hw]
    refine firstNumbered_of_unique (hf.documentOrder_perm.mem_iff.2 hp) hnumber fun q hq => ?_
    have hq' := hf.documentOrder_perm.mem_iff.1 hq
    by_cases hqn : q.isNumbered choices = true
    · obtain ⟨_, _, _, _, _, -, -, -, -, hm⟩ := hf.exists_number hb hc hq' hqn
      exact ⟨⟨_, hm⟩, fun he => hf.eq_of_number?_eq hb hc hq' hp hqn hn (he.trans hnumber.symm)⟩
    · rw [number?_of_not_numbered hqn]
      exact ⟨⟨none, rfl⟩, nofun⟩
  · intro p hp q hq hpn hqn hne he
    exact hne (hf.eq_of_number?_eq hb hc hp hq hpn hqn he)

/-- Small roman numerals from the second depth on, behind a dash. -/
def dashed : Numbering := { levels := [(2, ⟨"lower_roman", "#"⟩)], separator := "-" }

theorem separable_dashed : dashed.Separable where
  whole := rfl
  plain := by
    intro depth hd
    rcases Nat.lt_or_ge depth 2 with hlt | hge
    · obtain rfl : depth = 1 := by omega
      exact ⟨.decimal, rfl⟩
    · refine ⟨.lowerRoman, ?_⟩
      by_cases he : depth = 2
      · rw [he]
        rfl
      · have hne : ¬ (2 : Int) = depth := by omega
        have hlt : (2 : Int) < depth := by omega
        have hlevel : dashed.level? depth = none := by simp [Numbering.level?, dashed, hne]
        have habove : (dashed.levels.filter fun e => e.1 < (depth : Int)) = dashed.levels := by
          simp [dashed, hlt]
        unfold Numbering.levelAt
        rw [hlevel, habove]
        rfl
  separator_ne := by decide
  separator_apart := by simp [dashed]

theorem numbers_identify_dashed :
    sample.byReference? {} dashed "1-i" =
      .ok (some (row "d" (some 1) 1 2 { body := "b" })) := by
  have hp : row "d" (some 1) 1 2 { body := "b" } ∈ sample.paragraphs := by decide
  have hb : sample.Branches {} := by
    unfold Branches
    decide
  obtain ⟨hfound, -⟩ := numbers_identify reachable_sample hb separable_dashed
  obtain ⟨n, hn, hreference⟩ := hfound _ hp (by decide)
  obtain rfl : "1-i" = n := Option.some.inj (Except.ok.inj hn)
  exact hreference

end Store

end Bylaws
