import Bylaws.Text.Blank

/-!
# Texts without blanks at their ends

Trimming leaves a text without blanks at its ends, and leaves such a text alone
(`Text.trim_eq_self_iff`).
-/

namespace Bylaws

theorem isBlank_of_isAlphanum {c : Char} (h : c.isAlphanum = true) : Text.isBlank c = false := by
  have hranges : ((decide ('A'.val ≤ c.val ∧ c.val ≤ 'Z'.val) ||
      ('a'.val ≤ c.val && c.val ≤ 'z'.val)) || ('0'.val ≤ c.val && c.val ≤ '9'.val)) = true := h
  simp only [Bool.or_eq_true, Bool.and_eq_true, decide_eq_true_eq,
    UInt32.le_iff_toNat_le] at hranges
  have hn : c.toNat = c.val.toNat := rfl
  simp only [Text.isBlank, Text.inRanges, Text.blankRanges, List.any_cons, List.any_nil, hn]
  simp at hranges ⊢
  omega

/-- A text with no blank at either end is trimmed already. -/
theorem trim_eq_self {w : List Char} (hhead : ∀ c ∈ w.head?, Text.isBlank c = false)
    (hlast : ∀ c ∈ w.getLast?, Text.isBlank c = false) : Text.trim w = w := by
  have htrim : ∀ v : List Char, (∀ c ∈ v.head?, Text.isBlank c = false) → Text.trimStart v = v := by
    intro v hv
    cases v with
    | nil => rfl
    | cons c v => exact List.dropWhile_cons_of_neg (by simp [hv c rfl])
  unfold Text.trim
  rw [htrim w hhead, htrim w.reverse (by simpa using hlast), List.reverse_reverse]

namespace Text

/-- A text with no blank at either end. -/
structure Trimmed (w : List Char) : Prop where
  head : ∀ c ∈ w.head?, isBlank c = false
  last : ∀ c ∈ w.getLast?, isBlank c = false

theorem isBlank_of_mem_head?_trimStart {w : List Char} :
    ∀ c ∈ (trimStart w).head?, isBlank c = false := by
  intro c hc
  have hnot := List.head?_dropWhile_not isBlank w
  rwa [show (w.dropWhile isBlank).head? = some c from hc] at hnot

theorem trimmed_trim (w : List Char) : Trimmed (trim w) := by
  constructor
  · intro c hc
    have hprefix : trim w <+: trimStart w := by
      have hsuffix : trimStart (trimStart w).reverse <:+ (trimStart w).reverse :=
        List.dropWhile_suffix isBlank
      simpa [trim] using List.reverse_prefix.2 hsuffix
    obtain ⟨rest, hrest⟩ := hprefix
    refine isBlank_of_mem_head?_trimStart (w := w) c ?_
    rw [← hrest, List.head?_append, hc]
    rfl
  · intro c hc
    rw [trim, List.getLast?_reverse] at hc
    exact isBlank_of_mem_head?_trimStart c hc

/-- Trimming changes just the texts with a blank at an end. -/
theorem trim_eq_self_iff {w : List Char} : trim w = w ↔ Trimmed w :=
  ⟨fun h => h ▸ trimmed_trim w, fun h => trim_eq_self h.head h.last⟩

instance (w : List Char) : Decidable (Trimmed w) := decidable_of_iff _ trim_eq_self_iff

end Text

end Bylaws
