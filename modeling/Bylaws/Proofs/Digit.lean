import Bylaws.Decimal.Integer
import Mathlib.Tactic.Ring

/-!
# Digits and numbers

The decimal text of a number is a row of digits that stands for the number again, and a row of
digits stands for a number of no more places.
-/

namespace Bylaws.Text

theorem digitValue?_lt {c : Char} {d : Nat} (h : digitValue? c = some d) : d < 10 := by
  unfold digitValue? at h
  obtain ⟨z, hz, rfl⟩ := Option.map_eq_some_iff.1 h
  have hr := List.find?_some hz
  rw [Bool.and_eq_true, decide_eq_true_eq, decide_eq_true_eq] at hr
  omega

/-- The digits of ASCII come first among those of all scripts. -/
theorem digitValue?_of_isDigit {c : Char} (h : c.isDigit = true) :
    digitValue? c = some (c.toNat - 48) := by
  unfold digitValue? zeros
  rw [List.find?_cons_of_pos]
  · rfl
  · have : 48 ≤ c.toNat ∧ c.toNat ≤ 57 := Char.isDigit_iff_toNat.1 h
    rw [Bool.and_eq_true, decide_eq_true_eq, decide_eq_true_eq]
    omega

theorem isDigit_of_mem_toDigits {n : Nat} {c : Char} (h : c ∈ Nat.toDigits 10 n) :
    isDigit c = true := by
  unfold isDigit
  rw [digitValue?_of_isDigit (Nat.isDigit_of_mem_toDigits (by omega) (by omega) h)]
  rfl

/-- Rows of ASCII digits stand for what they stand for in ASCII. -/
theorem foldl_digits {ds : List Char} (h : ∀ c ∈ ds, c.isDigit = true) (n : Nat) :
    ds.foldl (fun n c => 10 * n + (digitValue? c).getD 0) n = Nat.ofDigitChars 10 ds n := by
  induction ds generalizing n with
  | nil => exact Nat.ofDigitChars_nil.symm
  | cons c ds ih =>
    rw [List.forall_mem_cons] at h
    rw [List.foldl_cons, ih h.2, Nat.ofDigitChars_cons, digitValue?_of_isDigit h.1]
    rfl

theorem toList_repr (n : Nat) : (Nat.repr n).toList = Nat.toDigits 10 n := by
  unfold Nat.repr
  rw [String.toList_ofList]

theorem digitsValue_toDigits (n : Nat) : digitsValue (Nat.toDigits 10 n) = n := by
  unfold digitsValue
  rw [foldl_digits (fun c hc => Nat.isDigit_of_mem_toDigits (by omega) (by omega) hc),
    Nat.ofDigitChars_ten_toDigits]

theorem foldl_digits_lt (ds : List Char) (n : Nat) :
    ds.foldl (fun n c => 10 * n + (digitValue? c).getD 0) n < (n + 1) * 10 ^ ds.length := by
  induction ds generalizing n with
  | nil => simp
  | cons c ds ih =>
    have hd : (digitValue? c).getD 0 < 10 := by
      cases hc : digitValue? c with
      | none => simp
      | some d => exact digitValue?_lt hc
    rw [List.foldl_cons, List.length_cons]
    calc _ < (10 * n + (digitValue? c).getD 0 + 1) * 10 ^ ds.length := ih _
      _ ≤ ((n + 1) * 10) * 10 ^ ds.length := Nat.mul_le_mul_right _ (by omega)
      _ = (n + 1) * 10 ^ (ds.length + 1) := by ring

/-- A row of digits bounds the number that it stands for. -/
theorem digitsValue_lt (ds : List Char) : digitsValue ds < 10 ^ ds.length := by
  have h := foldl_digits_lt ds 0
  rwa [Nat.zero_add, Nat.one_mul] at h

end Bylaws.Text
