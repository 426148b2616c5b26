import Bylaws.Numeral
import Bylaws.Proofs.Digit

/-!
# Reading numerals

What the words and the roman numerals of positive numbers stand for: a word is read in base
twenty-six without a zero (`wordValue_letters`), and a roman numeral by adding its letters, each
subtracted that stands before a greater one (`romanValue_roman`). So in each style a number can
be read back from its text (`Style.value_write`), which is made of ASCII letters and digits.
-/

namespace Bylaws

namespace Numeral

/-! ## Small letters -/

theorem letter_toNat {d : Nat} (h : d < 26) : (letter d).toNat = 97 + d := by
  revert d
  decide

theorem isAlphanum_letter {d : Nat} (h : d < 26) : (letter d).isAlphanum = true := by
  revert d
  decide

theorem isAlphanum_toUpper_letter {d : Nat} (h : d < 26) :
    (letter d).toUpper.isAlphanum = true := by
  revert d
  decide

theorem toLower_toUpper_letter {d : Nat} (h : d < 26) : (letter d).toUpper.toLower = letter d := by
  revert d
  decide

/-- A text of small letters. -/
def Small (w : List Char) : Prop := ∀ c ∈ w, ∃ d < 26, c = letter d

instance (w : List Char) : Decidable (Small w) :=
  List.decidableBAll (fun c => ∃ d < 26, c = letter d) w

theorem small_nil : Small [] := fun _ h => absurd h List.not_mem_nil

theorem Small.append {w w' : List Char} (h : Small w) (h' : Small w') : Small (w ++ w') :=
  List.forall_mem_append.2 ⟨h, h'⟩

theorem Small.isAlphanum {w : List Char} (h : Small w) : ∀ c ∈ w, c.isAlphanum = true := by
  intro c hc
  obtain ⟨d, hd, rfl⟩ := h c hc
  exact isAlphanum_letter hd

theorem Small.isAlphanum_capitals {w : List Char} (h : Small w) :
    ∀ c ∈ capitals w, c.isAlphanum = true := by
  intro c hc
  obtain ⟨c', hc', rfl⟩ := List.mem_map.1 hc
  obtain ⟨d, hd, rfl⟩ := h c' hc'
  exact isAlphanum_toUpper_letter hd

/-- Small letters can be had back from their capitals. -/
theorem Small.map_toLower_capitals {w : List Char} (h : Small w) :
    (capitals w).map Char.toLower = w := by
  unfold capitals
  rw [List.map_map]
  refine (List.map_congr_left fun c hc => ?_).trans (List.map_id w)
  obtain ⟨d, hd, rfl⟩ := h c hc
  exact toLower_toUpper_letter hd

/-! ## Words -/

/-- A word read on from a number, in base twenty-six with the digits from one on. -/
def readWord (n : Nat) (w : List Char) : Nat := w.foldl (fun n c => 26 * n + (c.toNat - 96)) n

/-- The number of a word. -/
def wordValue (w : List Char) : Nat := readWord 0 w

theorem wordValue_lettersBefore (n : Nat) (found : List Char) :
    wordValue (lettersBefore n found) = readWord n found := by
  induction n, found using lettersBefore.induct with
  | case1 found =>
    rw [lettersBefore, if_pos rfl]
    rfl
  | case2 n found hn ih =>
    have hd : (n - 1) % 26 < 26 := Nat.mod_lt _ (by omega)
    have hstep : 26 * ((n - 1) / 26) + ((letter ((n - 1) % 26)).toNat - 96) = n := by
      rw [letter_toNat hd]
      omega
    rw [lettersBefore, if_neg hn, ih]
    unfold readWord
    rw [List.foldl_cons, hstep]

/-- The word of a number stands for it. -/
theorem wordValue_letters (n : Nat) : wordValue (letters n) = n := wordValue_lettersBefore n []

theorem small_lettersBefore {n : Nat} {found : List Char} (h : Small found) :
    Small (lettersBefore n found) := by
  induction n, found using lettersBefore.induct with
  | case1 found =>
    rw [lettersBefore, if_pos rfl]
    exact h
  | case2 n found hn ih =>
    rw [lettersBefore, if_neg hn]
    exact ih (List.forall_mem_cons.2 ⟨⟨_, Nat.mod_lt _ (by omega), rfl⟩, h⟩)

theorem small_letters (n : Nat) : Small (letters n) := small_lettersBefore small_nil

/-! ## Roman numerals -/

/-- What a roman letter stands for. -/
def romanUnit : Char → Int
  | 'i' => 1
  | 'v' => 5
  | 'x' => 10
  | 'l' => 50
  | 'c' => 100
  | 'd' => 500
  | 'm' => 1000
  | _ => 0

/-- What a roman numeral stands for: its letters are added, and subtracted right before a greater
one. -/
def romanValue : List Char → Int
  | [] => 0
  | [c] => romanUnit c
  | c :: c' :: rest =>
    (if romanUnit c < romanUnit c' then -romanUnit c else romanUnit c) + romanValue (c' :: rest)

theorem romanValue_cons_cons (c c' : Char) (rest : List Char) :
    romanValue (c :: c' :: rest) =
      (if romanUnit c < romanUnit c' then -romanUnit c else romanUnit c) +
        romanValue (c' :: rest) := rfl

/-- The next numeral begins with no greater letter than this one ends with. -/
def Descends (w w' : List Char) : Prop :=
  ∀ c ∈ w.getLast?, ∀ c' ∈ w'.head?, romanUnit c' ≤ romanUnit c

-- By the two letters in question; the instance that is found otherwise goes through all letters.
instance (w w' : List Char) : Decidable (Descends w w') :=
  @Option.decidableForallMem _ _ (fun _ => Option.decidableForallMem w'.head?) w.getLast?

namespace Descends

variable {u v w : List Char}

theorem append_left (hu : Descends u w) (hv : Descends v w) : Descends (u ++ v) w := by
  intro c hc
  rw [List.getLast?_append, Option.mem_def, Option.or_eq_some_iff] at hc
  rcases hc with hc | ⟨-, hc⟩
  · exact hv c hc
  · exact hu c hc

theorem append_right (hv : Descends u v) (hw : Descends u w) : Descends u (v ++ w) := by
  intro c hc c' hc'
  rw [List.head?_append, Option.mem_def, Option.or_eq_some_iff] at hc'
  rcases hc' with hc' | ⟨-, hc'⟩
  · exact hv c hc c' hc'
  · exact hw c hc c' hc'

theorem repeat_left (h : Descends u w) (n : Nat) :
    Descends (List.replicate n u).flatten w := by
  induction n with
  | zero => exact fun _ hc => nomatch hc
  | succ n ih => exact h.append_left ih

theorem repeat_right (h : Descends u w) (n : Nat) :
    Descends u (List.replicate n w).flatten := by
  induction n with
  | zero => exact fun _ _ _ hc => nomatch hc
  | succ n ih => exact h.append_right ih

end Descends

/-- Roman numerals add up where nothing is subtracted across them. -/
theorem romanValue_append {w w' : List Char} (h : Descends w w') :
    romanValue (w ++ w') = romanValue w + romanValue w' := by
  induction w with
  | nil => exact (Int.zero_add _).symm
  | cons c w ih =>
    cases w with
    | nil =>
      cases w' with
      | nil => exact (Int.add_zero _).symm
      | cons c' w' =>
        have hle : ¬ romanUnit c < romanUnit c' := Int.not_lt.2 (h c rfl c' rfl)
        rw [List.singleton_append, romanValue_cons_cons, if_neg hle]
        rfl
    | cons d w =>
      have hd : Descends (d :: w) w' := by
        unfold Descends at h
        rwa [List.getLast?_cons_cons] at h
      have ih' := ih hd
      rw [List.cons_append] at ih'
      rw [List.cons_append, List.cons_append, romanValue_cons_cons, romanValue_cons_cons, ih',
        Int.add_assoc]

theorem romanValue_repeat {w : List Char} (h : Descends w w) (n : Nat) :
    romanValue (List.replicate n w).flatten = n * romanValue w := by
  induction n with
  | zero => exact (Int.zero_mul _).symm
  | succ n ih =>
    rw [List.replicate_succ, List.flatten_cons, romanValue_append (h.repeat_right n), ih,
      Int.natCast_succ, Int.add_mul, Int.one_mul, Int.add_comm]

/-- Symbols that each stand for their value, and that may be repeated and followed by all later
ones. -/
def Ordered : List (Nat × List Char) → Prop
  | [] => True
  | s :: rest => romanValue s.2 = s.1 ∧ (∀ t ∈ s :: rest, Descends s.2 t.2) ∧ Ordered rest

theorem ordered_romanSymbols : Ordered romanSymbols := by
  simp only [romanSymbols, Ordered]
  decide

theorem descends_romanWith {w : List Char} {symbols : List (Nat × List Char)}
    (h : ∀ t ∈ symbols, Descends w t.2) (n : Nat) : Descends w (romanWith symbols n) := by
  induction symbols generalizing n with
  | nil => exact fun _ _ _ hc => nomatch hc
  | cons s symbols ih =>
    rw [List.forall_mem_cons] at h
    exact (h.1.repeat_right _).append_right (ih h.2 _)

/-- With symbols down to one, what is written is the whole number. -/
theorem romanValue_romanWith {symbols : List (Nat × List Char)} (h : Ordered symbols) {n : Nat}
    (hn : n = 0 ∨ 1 ∈ symbols.map Prod.fst) : romanValue (romanWith symbols n) = n := by
  induction symbols generalizing n with
  | nil =>
    obtain rfl : n = 0 := hn.resolve_right List.not_mem_nil
    rfl
  | cons s symbols ih =>
    obtain ⟨value, symbol⟩ := s
    obtain ⟨hvalue, hdesc, hrest⟩ := h
    rw [List.forall_mem_cons] at hdesc
    have hmod : n % value = 0 ∨ 1 ∈ symbols.map Prod.fst := by
      rcases hn with rfl | hn
      · exact .inl (Nat.zero_mod value)
      · rcases List.mem_cons.1 hn with rfl | hn
        · exact .inl (Nat.mod_one n)
        · exact .inr hn
    have hsum : (n / value : Nat) * (value : Int) + (n % value : Nat) = n := by
      exact_mod_cast Nat.div_add_mod' n value
    show romanValue ((List.replicate (n / value) symbol).flatten ++
      romanWith symbols (n % value)) = n
    rw [romanValue_append ((descends_romanWith hdesc.2 _).repeat_left _),
      romanValue_repeat hdesc.1, ih hrest hmod, hvalue, hsum]

/-- The roman numeral of a number stands for it. -/
theorem romanValue_roman (n : Nat) : romanValue (roman n) = n :=
  romanValue_romanWith ordered_romanSymbols (.inr (by decide))

theorem small_roman (n : Nat) : Small (roman n) := by
  have hsymbols : ∀ s ∈ romanSymbols, Small s.2 := by decide
  unfold roman
  generalize romanSymbols = symbols at hsymbols
  induction symbols generalizing n with
  | nil => exact small_nil
  | cons s symbols ih =>
    rw [List.forall_mem_cons] at hsymbols
    refine .append (fun c hc => ?_) (ih _ hsymbols.2)
    obtain ⟨w, hw, hc⟩ := List.mem_flatten.1 hc
    exact hsymbols.1 c (List.eq_of_mem_replicate hw ▸ hc)

end Numeral

/-! ## Styles -/

namespace Style

open Numeral

theorem ofName?_name (style : Style) : ofName? style.name = some style := by
  cases style <;> decide

/-- The number that a text stands for in a style. -/
def value : Style → List Char → Int
  | decimal, w => Text.digitsValue w
  | lowerAlpha, w => wordValue w
  | upperAlpha, w => wordValue (w.map Char.toLower)
  | lowerRoman, w => romanValue w
  | upperRoman, w => romanValue (w.map Char.toLower)

/-- The characters of a positive number in a style. -/
def digits : Style → Nat → List Char
  | decimal, n => Nat.toDigits 10 n
  | lowerAlpha, n => letters n
  | upperAlpha, n => capitals (letters n)
  | lowerRoman, n => roman n
  | upperRoman, n => capitals (roman n)

theorem toList_write (style : Style) {n : Nat} (h : 0 < n) :
    (style.write n).toList = style.digits n := by
  have hn : ¬ (n : Int) < 1 := by omega
  unfold write
  rw [if_neg hn, Int.toNat_natCast]
  cases style with
  | decimal => exact Text.toList_repr n
  | lowerAlpha => exact String.toList_ofList
  | upperAlpha => exact String.toList_ofList
  | lowerRoman => exact String.toList_ofList
  | upperRoman => exact String.toList_ofList

theorem value_digits (style : Style) (n : Nat) : style.value (style.digits n) = n := by
  cases style with
  | decimal => exact congrArg _ (Text.digitsValue_toDigits n)
  | lowerAlpha => exact congrArg _ (wordValue_letters n)
  | upperAlpha =>
    show (wordValue ((capitals (letters n)).map Char.toLower) : Int) = n
    rw [(small_letters n).map_toLower_capitals, wordValue_letters]
  | lowerRoman => exact romanValue_roman n
  | upperRoman =>
    show romanValue ((capitals (roman n)).map Char.toLower) = n
    rw [(small_roman n).map_toLower_capitals, romanValue_roman]

/-- In every style a number can be read back from its text. -/
theorem value_write (style : Style) {n : Nat} (h : 0 < n) :
    style.value (style.write n).toList = n := by
  rw [toList_write style h, value_digits]

theorem isAlphanum_of_mem_write {style : Style} {n : Nat} (h : 0 < n) :
    ∀ c ∈ (style.write n).toList, c.isAlphanum = true := by
  rw [toList_write style h]
  cases style with
  | decimal =>
    intro c hc
    have hd := Nat.isDigit_of_mem_toDigits (by omega) (by omega) hc
    rw [Char.isAlphanum, hd, Bool.or_true]
  | lowerAlpha => exact (small_letters n).isAlphanum
  | upperAlpha => exact (small_letters n).isAlphanum_capitals
  | lowerRoman => exact (small_roman n).isAlphanum
  | upperRoman => exact (small_roman n).isAlphanum_capitals

theorem write_ne_nil (style : Style) {n : Nat} (h : 0 < n) : (style.write n).toList ≠ [] := by
  intro he
  have hv := value_write style h
  rw [he] at hv
  have hzero : style.value [] = 0 := by cases style <;> rfl
  omega

theorem write_of_lt (style : Style) {n : Int} (h : n < 1) : style.write n = Decimal.intText n :=
  if_pos h

theorem isDecimal_iff {style : Style} {n : Int} :
    style.isDecimal n = true ↔ style = .decimal ∨ n < 1 := by
  unfold isDecimal
  rw [Bool.or_eq_true, decide_eq_true_eq, decide_eq_true_eq]

theorem write_of_isDecimal {style : Style} {n : Int} (h : style.isDecimal n = true) :
    style.write n = Decimal.intText n := by
  rcases isDecimal_iff.1 h with rfl | hn
  · exact ite_self _
  · exact style.write_of_lt hn

/-- An integer has its text in a style, unless it has too many digits in decimal. -/
theorem text_eq (style : Style) (n : Int) :
    style.text n = if style.isDecimal n && Decimal.isTooLong n then .error .integerUnwritable
      else .ok (style.write n) := by
  unfold text Value.intText
  cases h : style.isDecimal n with
  | false => rw [Bool.false_and, if_neg Bool.false_ne_true, if_neg Bool.false_ne_true]
  | true => rw [Bool.true_and, if_pos rfl, write_of_isDecimal h]

end Style

end Bylaws
