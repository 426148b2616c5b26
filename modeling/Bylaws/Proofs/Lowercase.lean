import Bylaws.Proofs.Trim
import Bylaws.Text.Lowercase
import Bylaws.Text.Surrogate
import Mathlib.Tactic.SplitIfs

/-!
# Lower case twice

The lower case of a text is its own lower case (`Text.lower_lower`), and it has no blanks at its
ends if the text has none (`Text.Trimmed.lower`). Of the table of capital letters this takes that no
lower case in it is a capital letter or a blank, which is told from the ends of its ranges
(`Text.CaseRange.isSound`).
-/

namespace Bylaws.Text

/-! ## The table of capital letters -/

namespace CaseRange

/-- The lower case of the first character of a range. -/
def lowerFirst (r : CaseRange) : Nat := (r.first + r.offset).toNat

/-- The lower case of the last character of a range. -/
def lowerLast (r : CaseRange) : Nat := (r.last + r.offset).toNat

/-- The lower case of a range is outside another one, or between its members. -/
def avoids (r r' : CaseRange) : Bool :=
  r.lowerLast < r'.first || r'.last < r.lowerFirst ||
    ((r.step == 2 || r.first == r.last) && r'.step == 2 && (r.lowerFirst + r'.first) % 2 == 1)

/-- The lower case of a range is made of characters that are neither capital letters nor blanks. -/
def isSound (r : CaseRange) : Bool :=
  -r.offset ≤ r.first &&
    (r.lowerLast < 0xD800 || (0xDFFF < r.lowerFirst && r.lowerLast < 0x110000)) &&
    (r.lowerLast < 0x130 || 0x130 < r.lowerFirst) &&
    caseRanges.all r.avoids &&
    blankRanges.all fun b => r.lowerLast < b.1 || b.2 < r.lowerFirst

theorem isSound_of_mem : ∀ r ∈ caseRanges, r.isSound = true :=
  List.all_eq_true.1 (by decide +kernel)

variable {r r' : CaseRange} {n : Nat}

/-- The lower case of a character is as far from that of the first one as the characters are. -/
theorem lower_eq (hstart : -r.offset ≤ r.first) (hn : r.contains n = true) :
    (n + r.offset).toNat = r.lowerFirst + (n - r.first) ∧ (n + r.offset).toNat ≤ r.lowerLast := by
  unfold contains at hn
  simp only [Bool.and_eq_true, decide_eq_true_eq] at hn
  unfold lowerFirst lowerLast
  omega

theorem contains_eq_false (hstart : -r.offset ≤ r.first) (h : r.avoids r' = true)
    (hn : r.contains n = true) : r'.contains (n + r.offset).toNat = false := by
  obtain ⟨hlow, hhigh⟩ := lower_eq hstart hn
  unfold avoids at h
  unfold contains at hn ⊢
  generalize (n + r.offset).toNat = m at hlow hhigh ⊢
  simp only [Bool.or_eq_true, Bool.and_eq_true, decide_eq_true_eq, beq_iff_eq] at h hn
  rw [Bool.eq_false_iff]
  intro hm
  simp only [Bool.and_eq_true, decide_eq_true_eq, beq_iff_eq] at hm
  rcases h with (h | h) | ⟨⟨hstep | hsingle, hstep'⟩, hodd⟩
  · omega
  · omega
  · rw [hstep] at hn
    rw [hstep'] at hm
    omega
  · rw [hstep'] at hm
    omega

end CaseRange

/-! ## Single characters -/

/-- A character of a lower case is its own lower case, and no blank unless the first one is. -/
theorem lowerChar_of_mem {c d : Char} (h : d ∈ lowerChar c) :
    lowerChar d = [d] ∧ (isBlank c = false → isBlank d = false) := by
  unfold lowerChar at h
  split_ifs at h with hdotted
  · rcases List.mem_cons.1 h with rfl | h
    · exact ⟨by decide +kernel, fun _ => by decide⟩
    · obtain rfl := List.mem_singleton.1 h
      exact ⟨by decide +kernel, fun _ => by decide⟩
  · split at h
    · next r hr =>
      have hsound := CaseRange.isSound_of_mem r (List.mem_of_find?_eq_some hr)
      have hn : r.contains c.toNat = true := by simpa using List.find?_some hr
      unfold CaseRange.isSound at hsound
      simp only [Bool.and_eq_true, decide_eq_true_eq, Bool.or_eq_true, List.all_eq_true] at hsound
      obtain ⟨⟨⟨⟨hstart, hvalid⟩, hnot⟩, havoids⟩, hblanks⟩ := hsound
      obtain ⟨hlow, hhigh⟩ := CaseRange.lower_eq hstart hn
      have hd : d.toNat = (c.toNat + r.offset).toNat := by
        rw [List.mem_singleton.1 h]
        exact toNat_ofNat_of_lt (by omega)
      refine ⟨?_, fun _ => ?_⟩
      · have hnone : caseRanges.find? (·.contains d.toNat) = none := by
          rw [List.find?_eq_none]
          intro r' hr'
          rw [hd, CaseRange.contains_eq_false hstart (havoids r' hr') hn]
          exact Bool.false_ne_true
        unfold lowerChar
        rw [if_neg (by omega), hnone]
      · unfold isBlank inRanges
        rw [List.any_eq_false]
        intro b hb
        have := hblanks b hb
        simp only [Bool.and_eq_true, decide_eq_true_eq]
        omega
    · next hr =>
      obtain rfl := List.mem_singleton.1 h
      refine ⟨?_, fun hblank => hblank⟩
      unfold lowerChar
      rw [if_neg hdotted, hr]

theorem lowerChar_ne_nil (c : Char) : lowerChar c ≠ [] := by
  unfold lowerChar
  split_ifs
  · exact List.cons_ne_nil _ _
  · split <;> exact List.cons_ne_nil _ _

/-! ## Texts -/

/-- The lower case of one character where it stands in a text. -/
def lowerAt (cased : Bool) (c : Char) (rest : List Char) : List Char :=
  if c = 'Σ' then [if cased && !startsCased rest then 'ς' else 'σ'] else lowerChar c

theorem lowerAfter_cons (cased : Bool) (c : Char) (rest : List Char) :
    lowerAfter cased (c :: rest) =
      lowerAt cased c rest ++ lowerAfter (if isCaseIgnored c then cased else isCased c) rest := rfl

theorem lowerAt_of_mem {cased : Bool} {c d : Char} {rest : List Char}
    (h : d ∈ lowerAt cased c rest) :
    lowerChar d = [d] ∧ (isBlank c = false → isBlank d = false) := by
  unfold lowerAt at h
  split at h
  · have hboth : ∀ b : Bool, lowerChar (if b then 'ς' else 'σ') = [if b then 'ς' else 'σ'] ∧
        isBlank (if b then 'ς' else 'σ') = false := by
      decide +kernel
    rw [List.mem_singleton.1 h]
    exact ⟨(hboth _).1, fun _ => (hboth _).2⟩
  · exact lowerChar_of_mem h

theorem lowerAt_ne_nil (cased : Bool) (c : Char) (rest : List Char) :
    lowerAt cased c rest ≠ [] := by
  unfold lowerAt
  split
  · exact List.cons_ne_nil _ _
  · exact lowerChar_ne_nil c

theorem lowerChar_of_mem_lowerAfter {cased : Bool} {w : List Char} :
    ∀ d ∈ lowerAfter cased w, lowerChar d = [d] := by
  induction w generalizing cased with
  | nil => exact fun _ h => absurd h List.not_mem_nil
  | cons c rest ih =>
    rw [lowerAfter_cons]
    exact List.forall_mem_append.2 ⟨fun d hd => (lowerAt_of_mem hd).1, ih⟩

/-- Characters that are their own lower case stay as they are wherever they stand. -/
theorem lowerAfter_eq_self {cased : Bool} {w : List Char} (h : ∀ c ∈ w, lowerChar c = [c]) :
    lowerAfter cased w = w := by
  induction w generalizing cased with
  | nil => rfl
  | cons c rest ih =>
    obtain ⟨hc, hrest⟩ := List.forall_mem_cons.1 h
    have hsigma : c ≠ 'Σ' := by
      rintro rfl
      exact absurd hc (by decide +kernel)
    rw [lowerAfter_cons, lowerAt, if_neg hsigma, hc, ih hrest]
    rfl

/-- The lower case of a text is its own lower case. -/
theorem lower_lower (w : List Char) : lower (lower w) = lower w :=
  lowerAfter_eq_self lowerChar_of_mem_lowerAfter

theorem isBlank_of_mem_head?_lowerAfter {cased : Bool} {w : List Char}
    (h : ∀ c ∈ w.head?, isBlank c = false) : ∀ d ∈ (lowerAfter cased w).head?, isBlank d = false := by
  cases w with
  | nil => exact fun _ hd => nomatch hd
  | cons c rest =>
    intro d hd
    obtain ⟨d', piece, hpiece⟩ := List.exists_cons_of_ne_nil (lowerAt_ne_nil cased c rest)
    rw [lowerAfter_cons, hpiece] at hd
    obtain rfl := Option.some.inj hd
    exact (lowerAt_of_mem (hpiece ▸ List.mem_cons_self)).2 (h c rfl)

theorem isBlank_of_mem_getLast?_lowerAfter {cased : Bool} {w : List Char}
    (h : ∀ c ∈ w.getLast?, isBlank c = false) :
    ∀ d ∈ (lowerAfter cased w).getLast?, isBlank d = false := by
  induction w generalizing cased with
  | nil => exact fun _ hd => nomatch hd
  | cons c rest ih =>
    intro d hd
    rw [lowerAfter_cons] at hd
    cases rest with
    | nil =>
      rw [lowerAfter, List.append_nil] at hd
      exact (lowerAt_of_mem (List.mem_of_getLast? hd)).2 (h c rfl)
    | cons c' rest =>
      have hne : lowerAfter (if isCaseIgnored c then cased else isCased c) (c' :: rest) ≠ [] := by
        rw [lowerAfter_cons]
        exact List.append_ne_nil_of_left_ne_nil (lowerAt_ne_nil _ _ _) _
      rw [List.getLast?_append, List.getLast?_eq_some_getLast hne, Option.some_or,
        ← List.getLast?_eq_some_getLast hne] at hd
      exact ih (fun x hx => h x (by rwa [List.getLast?_cons_cons])) d hd

/-- A text without blanks at its ends has none there in lower case. -/
theorem Trimmed.lower {w : List Char} (h : Trimmed w) : Trimmed (lower w) where
  head := isBlank_of_mem_head?_lowerAfter h.head
  last := isBlank_of_mem_getLast?_lowerAfter h.last

end Bylaws.Text
