import Bylaws.Proofs.Digit
import Bylaws.Proofs.Trim
import Mathlib.Data.List.TakeWhile
import Std.Data.String.ToInt

/-!
# Integers in decimal

The text of an integer is a row of digits with a sign in front of negative ones. No two integers
have the same text (`intText_injective`), and an integer within the digit limit is read again from
its text (`readInt_intText`), one beyond it never (`readInt_intText_of_isTooLong`).
-/

namespace Bylaws.Decimal

theorem intText_eq_repr (n : Int) : intText n = n.repr := by
  cases n <;> rfl

theorem intText_injective : Function.Injective intText := by
  intro m n h
  rw [intText_eq_repr, intText_eq_repr] at h
  exact Int.repr_inj.1 h

theorem isDigit_of_mem_repr {n : Nat} {c : Char} (h : c ∈ (Nat.repr n).toList) :
    c.isDigit = true := by
  rw [Text.toList_repr] at h
  exact Nat.isDigit_of_mem_toDigits (by omega) (by omega) h

theorem isDigit_or_of_mem_intText {n : Int} {c : Char} (h : c ∈ (intText n).toList) :
    c.isDigit = true ∨ c = '-' := by
  cases n with
  | ofNat m => exact .inl (isDigit_of_mem_repr h)
  | negSucc m =>
    rw [intText, String.toList_append, List.mem_append] at h
    exact h.elim (fun h => .inr (List.mem_singleton.1 h)) fun h => .inl (isDigit_of_mem_repr h)

/-! ## Reading -/

theorem strip_eq_self {p : Char → Bool} {s : List Char} (h : ∀ c ∈ s, p c = false) :
    strip p s = s := by
  have hdrop : ∀ t : List Char, (∀ c ∈ t, p c = false) → t.dropWhile p = t := by
    intro t ht
    cases t with
    | nil => rfl
    | cons c t => exact List.dropWhile_cons_of_neg (by simp [ht c List.mem_cons_self])
  unfold strip
  rw [hdrop s h, hdrop s.reverse fun c hc => h c (List.mem_reverse.1 hc), List.reverse_reverse]

theorem separatedDigits?_eq {ds : List Char} (hne : ds ≠ [])
    (h : ∀ c ∈ ds, c.isDigit = true) : separatedDigits? ds = some ds := by
  have hd : ∀ c ∈ ds, Text.isDigit c = true := fun c hc => by
    unfold Text.isDigit
    rw [Text.digitValue?_of_isDigit (h c hc)]
    rfl
  fun_induction separatedDigits? ds with
  | case1 => exact absurd rfl hne
  | case2 c hc => rfl
  | case3 c hc => exact absurd (hd c List.mem_cons_self) hc
  | case4 c rest hc ih => exact absurd (h '_' (by simp)) (by decide)
  | case5 c rest hc => exact absurd (hd c List.mem_cons_self) hc
  | case6 c rest hrest hnot hc ih =>
    rw [ih (fun he => hrest (by rw [he])) (fun c hm => h c (List.mem_cons_of_mem _ hm))
      fun c hm => hd c (List.mem_cons_of_mem _ hm)]
    rfl
  | case7 c rest hrest hnot hc => exact absurd (hd c List.mem_cons_self) hc

/-- The limit is a variable here, since ten to its power is too large to be computed. -/
theorem isTooLong_eq_false_iff {n : Int} {limit : Nat} (h : limit = digitLimit) :
    isTooLong n = false ↔ n.natAbs < 10 ^ limit := by
  unfold isTooLong
  rw [decide_eq_false_iff_not, Nat.not_le, ← h]
  exact Iff.rfl

/-- The number of digits that are read, or the fault that they are too many. -/
def readDigits (count : Nat) (n : Int) : Except ReadError Int :=
  if digitLimit < count then .error (.tooLong count) else .ok n

section Digits

variable {n : Nat} {c : Char} (hc : c ∈ Nat.toDigits 10 n)
include hc

theorem isDigit_of_mem_toDigits : c.isDigit = true :=
  Nat.isDigit_of_mem_toDigits (by omega) (by omega) hc

theorem isRowChar_of_mem_toDigits : isRowChar c = true := by
  rw [isRowChar, Text.isDigit_of_mem_toDigits hc, Bool.true_or]

theorem isNumberBlank_of_mem_toDigits : isNumberBlank c = false := by
  have halnum : c.isAlphanum = true := by
    rw [Char.isAlphanum, isDigit_of_mem_toDigits hc, Bool.or_true]
  rw [isNumberBlank, isBlank_of_isAlphanum halnum, Bool.false_and]

theorem ne_sign_of_mem_toDigits : c ≠ '-' ∧ c ≠ '+' := by
  constructor <;> rintro rfl <;> exact absurd (isDigit_of_mem_toDigits hc) (by decide)

end Digits

theorem separatedDigits?_toDigits (n : Nat) :
    separatedDigits? ((Nat.toDigits 10 n).takeWhile isRowChar) = some (Nat.toDigits 10 n) := by
  rw [List.takeWhile_eq_self_iff.2 fun _ => isRowChar_of_mem_toDigits]
  exact separatedDigits?_eq Nat.toDigits_ne_nil fun _ => isDigit_of_mem_toDigits

/-- Digits without a sign, and digits after one, are read as what they stand for. -/
theorem readInt_toDigits (n : Nat) :
    readInt (Nat.toDigits 10 n) = readDigits (Nat.toDigits 10 n).length n ∧
      readInt ('-' :: Nat.toDigits 10 n) = readDigits (Nat.toDigits 10 n).length (-n) := by
  have hblank : ∀ c ∈ Nat.toDigits 10 n, isNumberBlank c = false :=
    fun _ => isNumberBlank_of_mem_toDigits
  have hall : (Nat.toDigits 10 n).all isRowChar = true :=
    List.all_eq_true.2 fun _ => isRowChar_of_mem_toDigits
  have hsign : ∀ c ∈ Nat.toDigits 10 n, c ≠ '-' ∧ c ≠ '+' := fun _ => ne_sign_of_mem_toDigits
  have hread := separatedDigits?_toDigits n
  have hvalue := Text.digitsValue_toDigits n
  cases hd : Nat.toDigits 10 n with
  | nil => exact absurd hd Nat.toDigits_ne_nil
  | cons d ds =>
    rw [hd] at hblank hall hsign hread hvalue
    have hfirst := hsign d List.mem_cons_self
    unfold readDigits readInt withoutBlanks
    rw [strip_eq_self hblank, strip_eq_self (List.forall_mem_cons.2 ⟨by decide, hblank⟩)]
    constructor
    · split
      next he =>
        split at he
        · next hs => exact absurd (List.cons.inj hs).1 hfirst.1
        · next hs => exact absurd (List.cons.inj hs).1 hfirst.2
        · obtain ⟨rfl, rfl⟩ := Prod.mk.inj he
          rw [hread]
          dsimp only
          rw [if_pos hall, hvalue]
          rfl
    · split
      next he =>
        obtain ⟨rfl, rfl⟩ := Prod.mk.inj he
        rw [hread]
        dsimp only
        rw [if_pos hall, hvalue]
        rfl

/-- An integer has too many digits just if its digits are more than the limit. -/
theorem isTooLong_eq_false_iff_length {n : Int} :
    isTooLong n = false ↔ (Nat.toDigits 10 n.natAbs).length ≤ digitLimit := by
  obtain ⟨limit, hlimit⟩ : ∃ limit, limit = digitLimit := ⟨_, rfl⟩
  rw [isTooLong_eq_false_iff hlimit, ← hlimit]
  exact (Nat.length_toDigits_le_iff (by omega) (by rw [hlimit]; decide)).symm

theorem readInt_intText_eq (n : Int) :
    readInt (intText n).toList = readDigits (Nat.toDigits 10 n.natAbs).length n := by
  cases n with
  | ofNat m =>
    rw [intText, Text.toList_repr]
    exact (readInt_toDigits m).1
  | negSucc m =>
    rw [intText, String.toList_append, Text.toList_repr]
    exact (readInt_toDigits (m + 1)).2

/-- An integer that is not too long is read from its text. -/
theorem readInt_intText {n : Int} (h : isTooLong n = false) :
    readInt (intText n).toList = .ok n := by
  rw [readInt_intText_eq]
  exact if_neg (Nat.not_lt.2 (isTooLong_eq_false_iff_length.1 h))

/-- The digits of an integer that is too long are not read. -/
theorem readInt_intText_of_isTooLong {n : Int} (h : isTooLong n = true) :
    readInt (intText n).toList = .error (.tooLong (Nat.toDigits 10 n.natAbs).length) := by
  rw [readInt_intText_eq]
  refine if_pos (Nat.lt_of_not_le fun hle => ?_)
  rw [isTooLong_eq_false_iff_length.2 hle] at h
  exact nomatch h

/-- The least integer that is too long. -/
def beyondLimit : Int := (10 ^ digitLimit : Nat)

theorem length_toDigits_beyondLimit :
    (Nat.toDigits 10 beyondLimit.natAbs).length = digitLimit + 1 := by
  have key : ∀ limit : Nat, 0 < limit → (Nat.toDigits 10 (10 ^ limit)).length = limit + 1 := by
    intro limit hpos
    have hle : (Nat.toDigits 10 (10 ^ limit)).length ≤ limit + 1 :=
      (Nat.length_toDigits_le_iff (by omega) (by omega)).2
        (Nat.pow_lt_pow_right (by omega) (by omega))
    have hlt : ¬ (Nat.toDigits 10 (10 ^ limit)).length ≤ limit := fun h =>
      absurd ((Nat.length_toDigits_le_iff (by omega) hpos).1 h) (lt_irrefl _)
    omega
  exact key digitLimit (by decide)

theorem isTooLong_beyondLimit : isTooLong beyondLimit = true := by
  by_contra h
  have hle := isTooLong_eq_false_iff_length.1 (Bool.eq_false_iff.2 h)
  rw [length_toDigits_beyondLimit] at hle
  omega

end Bylaws.Decimal
