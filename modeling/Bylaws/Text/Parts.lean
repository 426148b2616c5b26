/-!
# Parts of a text

A text cut at every place of a separator. There is one part more than there are separators, and
parts may be empty.
-/

namespace Bylaws.Text

/-- The parts of a text between the places of a separator. -/
def parts (separator : Char) : List Char → List (List Char)
  | [] => [[]]
  | c :: rest =>
    if c = separator then [] :: parts separator rest
    else
      match parts separator rest with
      | part :: more => (c :: part) :: more
      | [] => [[c]]

theorem parts_ne_nil (separator : Char) (s : List Char) : parts separator s ≠ [] := by
  cases s with
  | nil => simp [parts]
  | cons c rest => unfold parts; repeat' split; all_goals simp

theorem length_parts (separator : Char) (s : List Char) :
    (parts separator s).length = s.count separator + 1 := by
  induction s with
  | nil => rfl
  | cons c rest ih =>
    by_cases h : c = separator
    · simp [parts, h, ih]
    · have hne := parts_ne_nil separator rest
      cases hp : parts separator rest with
      | nil => exact absurd hp hne
      | cons part more => simp_all [parts]

/-- A text without a separator is one part. -/
theorem parts_of_notMem {separator : Char} {s : List Char} (h : separator ∉ s) :
    parts separator s = [s] := by
  induction s with
  | nil => rfl
  | cons c rest ih =>
    rw [List.mem_cons, not_or] at h
    unfold parts
    rw [if_neg (Ne.symm h.1), ih h.2]

/-- The first part ends where the first separator is. -/
theorem parts_append_cons {separator : Char} {s : List Char} (h : separator ∉ s)
    (rest : List Char) :
    parts separator (s ++ separator :: rest) = s :: parts separator rest := by
  induction s with
  | nil =>
    rw [List.nil_append, parts, if_pos rfl]
  | cons c s ih =>
    rw [List.mem_cons, not_or] at h
    rw [List.cons_append, parts, if_neg (Ne.symm h.1), ih h.2]

end Bylaws.Text
