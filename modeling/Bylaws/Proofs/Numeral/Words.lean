import Bylaws.Proofs.Numeral
import Mathlib.Data.Set.Function
import Mathlib.Data.String.Basic
import Mathlib.Order.Monotone.Basic

/-!
# Counting in words

The words that stand for the positive numbers are all words of small letters, each for one number
(`Numeral.alphabetic_counts`), and they come in the order of their length, and alphabetically
within one length.

1. A word is read one letter at a time, so the number that is read has the word as its letters
   (`letters_wordValue`).
2. The first letter counts most (`wordValue_cons`), and the words of one length stand for the
   numbers from `leastValue` of it up to the next (`leastValue_le`, `lt_leastValue`).
-/

namespace Bylaws.Numeral

/-- A word: one small letter or more. -/
def IsWord (w : String) : Prop := w.toList ≠ [] ∧ ∀ c ∈ w.toList, 'a' ≤ c ∧ c ≤ 'z'

theorem letter_bounds {d : Nat} (h : d < 26) : 'a' ≤ letter d ∧ letter d ≤ 'z' := by
  revert d
  decide

theorem letter_toNat_sub {c : Char} (h : 'a' ≤ c ∧ c ≤ 'z') : letter (c.toNat - 97) = c := by
  have ha : 97 ≤ c.toNat := h.1
  unfold letter
  rw [Nat.add_sub_cancel' ha, Char.ofNat_toNat]

theorem small_iff {w : List Char} : Small w ↔ ∀ c ∈ w, 'a' ≤ c ∧ c ≤ 'z' := by
  refine forall₂_congr fun c _ => ⟨?_, fun h => ?_⟩
  · rintro ⟨d, hd, rfl⟩
    exact letter_bounds hd
  · have hz : c.toNat ≤ 122 := h.2
    exact ⟨c.toNat - 97, by omega, (letter_toNat_sub h).symm⟩

theorem isWord_iff {w : String} : IsWord w ↔ w.toList ≠ [] ∧ Small w.toList :=
  and_congr_right fun _ => small_iff.symm

/-! ## Letters of the number that is read -/

theorem lettersBefore_succ {d : Nat} (hd : d < 26) (n : Nat) (found : List Char) :
    lettersBefore (26 * n + (d + 1)) found = lettersBefore n (letter d :: found) := by
  have hdiv : (26 * n + (d + 1) - 1) / 26 = n := by omega
  have hmod : (26 * n + (d + 1) - 1) % 26 = d := by omega
  rw [lettersBefore, if_neg (by omega), hdiv, hmod]

/-- A word that is read on from a number is written behind the letters of the number. -/
theorem lettersBefore_readWord {w : List Char} (h : Small w) (n : Nat) (found : List Char) :
    lettersBefore (readWord n w) found = lettersBefore n (w ++ found) := by
  induction w generalizing n with
  | nil => rfl
  | cons c w ih =>
    obtain ⟨⟨d, hd, rfl⟩, hw⟩ := List.forall_mem_cons.1 h
    have hvalue : (letter d).toNat - 96 = d + 1 := by
      rw [letter_toNat hd]
      omega
    show lettersBefore (readWord (26 * n + ((letter d).toNat - 96)) w) found = _
    rw [hvalue, ih hw, lettersBefore_succ hd]
    rfl

theorem letters_wordValue {w : List Char} (h : Small w) : letters (wordValue w) = w := by
  unfold letters wordValue
  rw [lettersBefore_readWord h, lettersBefore, if_pos rfl, List.append_nil]

/-! ## The first letter -/

theorem readWord_eq (n : Nat) (w : List Char) :
    readWord n w = n * 26 ^ w.length + wordValue w := by
  induction w generalizing n with
  | nil => exact (Nat.mul_one n).symm
  | cons c w ih =>
    have hn := ih (26 * n + (c.toNat - 96))
    have h0 := ih (26 * 0 + (c.toNat - 96))
    show readWord (26 * n + (c.toNat - 96)) w =
      n * 26 ^ (w.length + 1) + readWord (26 * 0 + (c.toNat - 96)) w
    rw [hn, h0, Nat.pow_succ]
    ring

theorem wordValue_cons (c : Char) (w : List Char) :
    wordValue (c :: w) = (c.toNat - 96) * 26 ^ w.length + wordValue w := by
  show readWord (26 * 0 + (c.toNat - 96)) w = _
  rw [readWord_eq, Nat.mul_zero, Nat.zero_add]

/-- The least number whose word has some length. -/
def leastValue : Nat → Nat
  | 0 => 0
  | k + 1 => leastValue k + 26 ^ k

theorem leastValue_mono : Monotone leastValue :=
  monotone_nat_of_le_succ fun _ => Nat.le_add_right _ _

/-- The words of a length stand for the numbers from the least one up to that of the next. -/
theorem wordValue_bounds {w : List Char} (h : Small w) :
    leastValue w.length ≤ wordValue w ∧ wordValue w < leastValue (w.length + 1) := by
  induction w with
  | nil => exact ⟨Nat.le_refl 0, Nat.one_pos⟩
  | cons c w ih =>
    obtain ⟨⟨d, hd, rfl⟩, hw⟩ := List.forall_mem_cons.1 h
    obtain ⟨hle, hlt⟩ := ih hw
    rw [wordValue_cons, letter_toNat hd, List.length_cons]
    have hone : 1 * 26 ^ w.length ≤ (97 + d - 96) * 26 ^ w.length :=
      Nat.mul_le_mul_right _ (by omega)
    have hmost : (97 + d - 96) * 26 ^ w.length ≤ 26 * 26 ^ w.length :=
      Nat.mul_le_mul_right _ (by omega)
    simp only [leastValue, Nat.pow_succ] at hlt ⊢
    omega

/-- Of two words the shorter one stands for less. -/
theorem wordValue_lt_of_length {v w : List Char} (hv : Small v) (hw : Small w)
    (h : v.length < w.length) : wordValue v < wordValue w :=
  calc wordValue v < leastValue (v.length + 1) := (wordValue_bounds hv).2
    _ ≤ leastValue w.length := leastValue_mono h
    _ ≤ wordValue w := (wordValue_bounds hw).1

/-- Of two words of one length the one that comes first alphabetically stands for less. -/
theorem wordValue_lt_of_lex {v w : List Char} (hv : Small v) (hw : Small w)
    (hlen : v.length = w.length) (h : v < w) : wordValue v < wordValue w := by
  induction v generalizing w with
  | nil =>
    obtain rfl := List.eq_nil_of_length_eq_zero hlen.symm
    exact absurd h (List.lt_irrefl [])
  | cons c v ih =>
    cases w with
    | nil => exact absurd hlen (Nat.succ_ne_zero v.length)
    | cons d w =>
      have hlen' : v.length = w.length := Nat.succ.inj hlen
      obtain ⟨⟨i, hi, rfl⟩, hv'⟩ := List.forall_mem_cons.1 hv
      obtain ⟨⟨j, hj, rfl⟩, hw'⟩ := List.forall_mem_cons.1 hw
      rw [wordValue_cons, wordValue_cons, letter_toNat hi, letter_toNat hj, hlen']
      rcases List.cons_lt_cons_iff.1 h with hij | ⟨hij, hlt⟩
      · -- The rest of the first word makes up for less than one in the first letter.
        have hij' : (letter i).toNat < (letter j).toNat := hij
        rw [letter_toNat hi, letter_toNat hj] at hij'
        have hstep : (97 + i - 96 + 1) * 26 ^ w.length ≤ (97 + j - 96) * 26 ^ w.length :=
          Nat.mul_le_mul_right _ (by omega)
        have hrest := (wordValue_bounds hv').2
        have hleast := (wordValue_bounds hw').1
        rw [hlen', leastValue] at hrest
        rw [Nat.succ_mul] at hstep
        omega
      · have hval := congrArg Char.toNat hij
        rw [letter_toNat hi, letter_toNat hj] at hval
        rw [hval]
        exact Nat.add_lt_add_left (ih hv' hw' hlen' hlt) _

/-- One word comes before another one: it is shorter, or as long and before it alphabetically. -/
theorem wordValue_lt_iff {v w : List Char} (hv : Small v) (hw : Small w) :
    wordValue v < wordValue w ↔ v.length < w.length ∨ v.length = w.length ∧ v < w := by
  constructor
  · intro h
    rcases Nat.lt_trichotomy v.length w.length with hl | hl | hl
    · exact .inl hl
    · refine .inr ⟨hl, ?_⟩
      rcases lt_trichotomy v w with hlt | rfl | hlt
      · exact hlt
      · exact absurd h (Nat.lt_irrefl _)
      · exact absurd h (Nat.lt_asymm (wordValue_lt_of_lex hw hv hl.symm hlt))
    · exact absurd h (Nat.lt_asymm (wordValue_lt_of_length hw hv hl))
  · rintro (hl | ⟨hl, hlt⟩)
    · exact wordValue_lt_of_length hv hw hl
    · exact wordValue_lt_of_lex hv hw hl hlt

/-! ## Numbers and words -/

/-- A number is written as the word that stands for it, and there is no other. -/
theorem alphabetic_eq_ok_iff {n : Int} {w : String} :
    alphabetic n = .ok w ↔ IsWord w ∧ (wordValue w.toList : Int) = n := by
  unfold alphabetic
  rw [isWord_iff]
  constructor
  · intro h
    by_cases hn : n < 1
    · rw [if_pos hn] at h
      exact nomatch h
    · rw [if_neg hn] at h
      obtain rfl := Except.ok.inj h
      rw [String.toList_ofList, wordValue_letters]
      refine ⟨⟨fun hnil => ?_, small_letters _⟩, by omega⟩
      have hzero := wordValue_letters n.toNat
      rw [hnil] at hzero
      change 0 = n.toNat at hzero
      omega
  · rintro ⟨⟨hne, hsmall⟩, rfl⟩
    have hpos : 0 < wordValue w.toList := by
      obtain ⟨c, v, hv⟩ := List.exists_cons_of_ne_nil hne
      have hleast := (wordValue_bounds hsmall).1
      have hone : leastValue 1 ≤ leastValue w.toList.length := by
        apply leastValue_mono
        rw [hv]
        exact Nat.succ_pos v.length
      exact Nat.lt_of_lt_of_le Nat.one_pos (hone.trans hleast)
    rw [if_neg (by omega), Int.toNat_natCast, letters_wordValue hsmall, String.ofList_toList]

theorem exists_alphabetic {n : Int} (h : 1 ≤ n) : ∃ w, alphabetic n = .ok w :=
  ⟨_, if_neg (Int.not_lt.2 h)⟩

/-- The positive numbers are written in all words of small letters, each in one of its own, which
stands for it in base twenty-six with the digits from one on. Smaller numbers have shorter words,
or words of the same length that come before alphabetically. -/
theorem alphabetic_counts :
    Set.BijOn alphabetic {n | 1 ≤ n} (Except.ok '' {w | IsWord w}) ∧
      (∀ n w, alphabetic n = .ok w → (wordValue w.toList : Int) = n) ∧
      ∀ m n v w, alphabetic m = .ok v → alphabetic n = .ok w →
        (m < n ↔ v.length < w.length ∨ v.length = w.length ∧ v < w) := by
  refine ⟨⟨?_, ?_, ?_⟩, fun n w h => (alphabetic_eq_ok_iff.1 h).2, ?_⟩
  · intro n hn
    obtain ⟨w, hw⟩ := exists_alphabetic hn
    exact ⟨w, (alphabetic_eq_ok_iff.1 hw).1, hw.symm⟩
  · intro m hm n _ he
    obtain ⟨w, hw⟩ := exists_alphabetic hm
    rw [← (alphabetic_eq_ok_iff.1 hw).2, (alphabetic_eq_ok_iff.1 (he.symm.trans hw)).2]
  · rintro _ ⟨w, hw, rfl⟩
    have hok : alphabetic (wordValue w.toList) = .ok w := alphabetic_eq_ok_iff.2 ⟨hw, rfl⟩
    refine ⟨wordValue w.toList, ?_, hok⟩
    by_contra hn
    unfold alphabetic at hok
    rw [if_pos (Int.not_le.1 hn)] at hok
    exact nomatch hok
  · intro m n v w hv hw
    obtain ⟨hvword, rfl⟩ := alphabetic_eq_ok_iff.1 hv
    obtain ⟨hwword, rfl⟩ := alphabetic_eq_ok_iff.1 hw
    rw [Int.ofNat_lt, wordValue_lt_iff (isWord_iff.1 hvword).2 (isWord_iff.1 hwword).2,
      String.length_toList, String.length_toList, String.lt_iff_toList_lt]

/-- After `z` comes `aa`. -/
theorem alphabetic_counts_double :
    alphabetic 26 = .ok "z" ∧ alphabetic 27 = .ok "aa" ∧ wordValue "aa".toList = 27 ∧
      ((26 : Int) < 27 ↔ "z".length < "aa".length ∨ "z".length = "aa".length ∧ "z" < "aa") := by
  have hz : alphabetic 26 = .ok "z" := alphabetic_eq_ok_iff.2 ⟨by simp [IsWord], rfl⟩
  have haa : alphabetic 27 = .ok "aa" := alphabetic_eq_ok_iff.2 ⟨by simp [IsWord], rfl⟩
  obtain ⟨-, hvalue, horder⟩ := alphabetic_counts
  exact ⟨hz, haa, by exact_mod_cast hvalue 27 "aa" haa, horder 26 27 "z" "aa" hz haa⟩

end Bylaws.Numeral
