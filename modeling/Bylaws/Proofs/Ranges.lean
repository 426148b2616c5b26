import Bylaws.Topic
import Bylaws.Proofs.Reference

/-!
# Ranges of numbers

`consolidate_map_repr`: the decimal texts of ascending numbers, drawn together, stand for these
numbers (`Denotes`), unless one of them is too long to be read (`Overlong`).

1. Ascending numbers are cut into intervals. Written out again the intervals are the numbers
   (`flatMap_numbers_intervals`), and there is a gap between neighbours (`isChain_intervals`).
2. A decimal text begins with the number itself (`leadingInteger?_repr`), so the texts are drawn
   together as the numbers are cut (`runs_map_repr`).
3. In words the intervals can be read again (`readIntervals_words`): the text is cut at its commas
   and each part at its dash, and neither stands in a number.
-/

namespace Bylaws

/-- The numbers from one to another. -/
structure Interval where
  first : Nat
  last : Nat
  deriving DecidableEq, Repr

namespace Interval

def numbers (i : Interval) : List Nat := List.range' i.first (i.last + 1 - i.first)

/-- An interval as its only number, or as its ends with a dash between. -/
def run (i : Interval) : Run := ⟨Nat.repr i.first, Nat.repr i.last, i.first == i.last⟩

theorem run_self (n : Nat) : run ⟨n, n⟩ = ⟨Nat.repr n, Nat.repr n, true⟩ := by
  unfold run
  rw [beq_self_eq_true]

theorem run_of_lt {i : Interval} (h : i.first < i.last) :
    i.run = ⟨Nat.repr i.first, Nat.repr i.last, false⟩ := by
  unfold run
  rw [beq_false_of_ne (Nat.ne_of_lt h)]

/-- Two intervals with a gap between them. -/
def Apart (i j : Interval) : Prop := i.last + 1 < j.first

instance (i j : Interval) : Decidable (i.Apart j) := inferInstanceAs (Decidable (_ < _))

theorem numbers_self (n : Nat) : numbers ⟨n, n⟩ = [n] := by
  unfold numbers
  rw [show n + 1 - n = 1 by omega]
  rfl

/-- The next number makes an interval longer by one. -/
theorem numbers_succ {i : Interval} (h : i.first ≤ i.last) :
    numbers ⟨i.first, i.last + 1⟩ = i.numbers ++ [i.last + 1] := by
  unfold numbers
  obtain ⟨k, hk⟩ := Nat.exists_eq_add_of_le h
  rw [hk, show i.first + k + 1 + 1 - i.first = k + 1 + 1 by omega,
    show i.first + k + 1 - i.first = k + 1 by omega, List.range'_concat, Nat.one_mul]
  rfl

end Interval

/-- Cuts numbers into the longest intervals of consecutive ones, after one in progress. -/
def intervalsFrom (i : Interval) : List Nat → List Interval
  | [] => [i]
  | n :: rest =>
    if n = i.last + 1 then intervalsFrom ⟨i.first, n⟩ rest else i :: intervalsFrom ⟨n, n⟩ rest

def intervals : List Nat → List Interval
  | [] => []
  | n :: rest => intervalsFrom ⟨n, n⟩ rest

theorem flatMap_numbers_intervalsFrom {i : Interval} (h : i.first ≤ i.last) (ns : List Nat) :
    (intervalsFrom i ns).flatMap Interval.numbers = i.numbers ++ ns := by
  induction ns generalizing i with
  | nil => simp [intervalsFrom]
  | cons n ns ih =>
    unfold intervalsFrom
    split
    · next hn =>
      subst hn
      rw [ih (show i.first ≤ i.last + 1 by omega), Interval.numbers_succ h, List.append_assoc]
      rfl
    · rw [List.flatMap_cons, ih (Nat.le_refl n), Interval.numbers_self]
      rfl

theorem flatMap_numbers_intervals (ns : List Nat) :
    (intervals ns).flatMap Interval.numbers = ns := by
  cases ns with
  | nil => rfl
  | cons n ns =>
    show (intervalsFrom ⟨n, n⟩ ns).flatMap Interval.numbers = n :: ns
    rw [flatMap_numbers_intervalsFrom (Nat.le_refl n), Interval.numbers_self]
    rfl

theorem first_of_mem_head?_intervalsFrom {i j : Interval} {ns : List Nat}
    (h : j ∈ (intervalsFrom i ns).head?) : j.first = i.first := by
  induction ns generalizing i with
  | nil =>
    obtain rfl : i = j := Option.some.inj h
    rfl
  | cons n ns ih =>
    unfold intervalsFrom at h
    split at h
    · exact ih (i := ⟨i.first, n⟩) h
    · obtain rfl : i = j := Option.some.inj h
      rfl

theorem isChain_intervalsFrom {i : Interval} {ns : List Nat}
    (h : (i.last :: ns).Pairwise (· < ·)) : (intervalsFrom i ns).IsChain Interval.Apart := by
  induction ns generalizing i with
  | nil => exact .singleton i
  | cons n ns ih =>
    obtain ⟨hlast, hns⟩ := List.pairwise_cons.1 h
    unfold intervalsFrom
    split
    · exact ih hns
    · next hn =>
      refine List.isChain_cons.2 ⟨fun j hj => ?_, ih hns⟩
      have hfirst : j.first = n := first_of_mem_head?_intervalsFrom hj
      have hlt := hlast n List.mem_cons_self
      show i.last + 1 < j.first
      omega

theorem isChain_intervals {ns : List Nat} (h : ns.Pairwise (· < ·)) :
    (intervals ns).IsChain Interval.Apart := by
  cases ns with
  | nil => exact .nil
  | cons n ns => exact isChain_intervalsFrom h

theorem first_le_last_of_mem_intervalsFrom {i j : Interval} {ns : List Nat}
    (hi : i.first ≤ i.last) (h : j ∈ intervalsFrom i ns) : j.first ≤ j.last := by
  induction ns generalizing i with
  | nil =>
    obtain rfl := List.mem_singleton.1 h
    exact hi
  | cons n ns ih =>
    unfold intervalsFrom at h
    split at h
    · exact ih (i := ⟨i.first, n⟩) (by show i.first ≤ n; omega) h
    · rcases List.mem_cons.1 h with rfl | h
      · exact hi
      · exact ih (Nat.le_refl n) h

theorem first_le_last_of_mem_intervals {j : Interval} {ns : List Nat} (h : j ∈ intervals ns) :
    j.first ≤ j.last := by
  cases ns with
  | nil => exact absurd h List.not_mem_nil
  | cons n ns => exact first_le_last_of_mem_intervalsFrom (Nat.le_refl n) h

/-! ## Runs of decimal texts -/

/-- How many decimal places a number has. -/
def places (n : Nat) : Nat := (Nat.toDigits 10 n).length

theorem pow_le_of_lt_places {limit n : Nat} (hpos : 0 < limit) (h : limit < places n) :
    10 ^ limit ≤ n := by
  by_contra hlt
  have hle : places n ≤ limit := (Nat.length_toDigits_le_iff (by omega) hpos).2 (Nat.not_le.1 hlt)
  exact absurd h (Nat.not_lt.2 hle)

theorem isAlphanum_of_mem_toDigits {n : Nat} {c : Char} (h : c ∈ Nat.toDigits 10 n) :
    c.isAlphanum = true := by
  have hd : c.isDigit = true := Nat.isDigit_of_mem_toDigits (by omega) (by omega) h
  rw [Char.isAlphanum, hd, Bool.or_true]

theorem trimStart_toDigits (n : Nat) : Text.trimStart (Nat.toDigits 10 n) = Nat.toDigits 10 n := by
  cases hd : Nat.toDigits 10 n with
  | nil => rfl
  | cons c ds =>
    have hc : c ∈ Nat.toDigits 10 n := hd ▸ List.mem_cons_self
    have hblank : Text.isBlank c = false := isBlank_of_isAlphanum (isAlphanum_of_mem_toDigits hc)
    exact List.dropWhile_cons_of_neg (by simp [hblank])

/-- A decimal text begins with the number itself, if it is not too long to be read. -/
theorem leadingInteger?_repr (n : Nat) :
    leadingInteger? (Nat.repr n).toList =
      if Decimal.digitLimit < places n then .error (.integerTooLong (places n))
      else .ok (some n) := by
  have hall : ∀ c ∈ Nat.toDigits 10 n, Text.isDigit c = true := fun _ =>
    Text.isDigit_of_mem_toDigits
  have htake : (Text.trimStart (Nat.repr n).toList).takeWhile Text.isDigit = Nat.toDigits 10 n := by
    rw [Text.toList_repr, trimStart_toDigits, List.takeWhile_eq_self_iff.2 hall]
  unfold leadingInteger?
  rw [htake]
  cases hd : Nat.toDigits 10 n with
  | nil => exact absurd hd Nat.toDigits_ne_nil
  | cons c ds =>
    have hvalue : Text.digitsValue (c :: ds) = n := hd ▸ Text.digitsValue_toDigits n
    show (if Decimal.digitLimit < (c :: ds).length then
        Except.error (Fault.integerTooLong (c :: ds).length)
      else .ok (some (Text.digitsValue (c :: ds)))) = _
    unfold places
    rw [hvalue, hd]

/-- Some of the numbers is too long to be read, and this is the fault. -/
def Overlong {α : Type} (ns : List Nat) (x : Except Fault α) : Prop :=
  ∃ n ∈ ns, Decimal.digitLimit < places n ∧ x = .error (.integerTooLong (places n))

theorem Overlong.mono {α : Type} {ns ns' : List Nat} {x : Except Fault α} (h : Overlong ns x)
    (hn : ∀ n ∈ ns, n ∈ ns') : Overlong ns' x := by
  obtain ⟨n, hmem, hlong⟩ := h
  exact ⟨n, hn n hmem, hlong⟩

theorem Overlong.bind {α β : Type} {ns : List Nat} {x : Except Fault α} (h : Overlong ns x)
    (f : α → Except Fault β) : Overlong ns (x >>= f) := by
  obtain ⟨n, hmem, hlong, rfl⟩ := h
  exact ⟨n, hmem, hlong, rfl⟩

theorem isAdjacent_repr (a b : Nat) :
    isAdjacent (Nat.repr a) (Nat.repr b) = .ok (b == a + 1) ∨
      Overlong [a, b] (isAdjacent (Nat.repr a) (Nat.repr b)) := by
  unfold isAdjacent
  rw [leadingInteger?_repr, leadingInteger?_repr]
  by_cases ha : Decimal.digitLimit < places a
  · rw [if_pos ha]
    exact .inr ⟨a, List.mem_cons_self, ha, rfl⟩
  · by_cases hb : Decimal.digitLimit < places b
    · rw [if_neg ha, if_pos hb]
      exact .inr ⟨b, List.mem_cons_of_mem a List.mem_cons_self, hb, rfl⟩
    · rw [if_neg ha, if_neg hb]
      exact .inl rfl

/-- The texts of ascending numbers are drawn together as the numbers are. -/
theorem runsFrom_map_repr {i : Interval} {ns : List Nat} (hi : i.first ≤ i.last)
    (h : (i.last :: ns).Pairwise (· < ·)) :
    runsFrom i.run (ns.map Nat.repr) = .ok ((intervalsFrom i ns).map Interval.run) ∨
      Overlong (i.last :: ns) (runsFrom i.run (ns.map Nat.repr)) := by
  induction ns generalizing i with
  | nil => exact .inl rfl
  | cons n ns ih =>
    obtain ⟨hlast, hns⟩ := List.pairwise_cons.1 h
    have hlt : i.last < n := hlast n List.mem_cons_self
    rw [List.map_cons, runsFrom, intervalsFrom]
    have hmem : ∀ m ∈ n :: ns, m ∈ i.last :: n :: ns := fun m => List.mem_cons_of_mem i.last
    rcases isAdjacent_repr i.last n with hadjacent | hlong
    · rw [show isAdjacent i.run.last (Nat.repr n) = .ok (n == i.last + 1) from hadjacent]
      by_cases hn : n = i.last + 1
      · have hlonger : { i.run with last := Nat.repr n, single := false } =
            Interval.run ⟨i.first, n⟩ :=
          (Interval.run_of_lt (i := ⟨i.first, n⟩) (by show i.first < n; omega)).symm
        rw [if_pos hn, beq_iff_eq.2 hn]
        show runsFrom { i.run with last := Nat.repr n, single := false } _ = _ ∨
          Overlong _ (runsFrom { i.run with last := Nat.repr n, single := false } _)
        rw [hlonger]
        exact (ih (i := ⟨i.first, n⟩) (by show i.first ≤ n; omega) hns).imp_right (·.mono hmem)
      · rw [if_neg hn, beq_false_of_ne hn]
        show (runsFrom ⟨Nat.repr n, Nat.repr n, true⟩ _ >>= fun runs => Except.ok (i.run :: runs)) =
          _ ∨ Overlong _ (runsFrom ⟨Nat.repr n, Nat.repr n, true⟩ _ >>= _)
        rw [← Interval.run_self]
        rcases ih (i := ⟨n, n⟩) (Nat.le_refl n) hns with hruns | hlong
        · rw [hruns]
          exact .inl rfl
        · exact .inr ((hlong.mono hmem).bind _)
    · exact .inr ((hlong.mono (by simp)).bind _)

/-- The texts of ascending numbers are drawn together as the numbers are. -/
theorem runs_map_repr {ns : List Nat} (h : ns.Pairwise (· < ·)) :
    runs (ns.map Nat.repr) = .ok ((intervals ns).map Interval.run) ∨
      Overlong ns (runs (ns.map Nat.repr)) := by
  cases ns with
  | nil => exact .inl rfl
  | cons n ns =>
    have hruns := runsFrom_map_repr (i := ⟨n, n⟩) (Nat.le_refl n) h
    rwa [Interval.run_self] at hruns

/-! ## Intervals in words -/

/-- The parts of a text between the commas that a blank comes after. -/
def commaParts : List Char → List (List Char)
  | [] => [[]]
  | ',' :: ' ' :: rest => [] :: commaParts rest
  | c :: rest =>
    match commaParts rest with
    | part :: more => (c :: part) :: more
    | [] => [[c]]

/-- The number that a row of digits stands for. -/
def readNumber (s : List Char) : Option Nat :=
  if s ≠ [] ∧ s.all Text.isDigit = true then some (Text.digitsValue s) else none

/-- A number stands for itself, and two numbers with a dash between for all from the one to the
other. -/
def readInterval (s : List Char) : Option Interval :=
  match Text.parts '–' s with
  | [a] => (readNumber a).map fun n => ⟨n, n⟩
  | [a, b] => do return ⟨← readNumber a, ← readNumber b⟩
  | _ => none

/-- Intervals with commas between; there are none in the empty text. -/
def readIntervals (s : String) : Option (List Interval) :=
  if s = "" then some [] else (commaParts s.toList).mapM readInterval

theorem commaParts_cons {c : Char} (hc : c ≠ ',') (s : List Char) :
    commaParts (c :: s) =
      match commaParts s with
      | part :: more => (c :: part) :: more
      | [] => [[c]] := by
  rw [commaParts]
  rintro rest rfl
  exact absurd rfl hc

theorem commaParts_of_notMem {s : List Char} (h : ',' ∉ s) : commaParts s = [s] := by
  induction s with
  | nil => rfl
  | cons c s ih =>
    rw [List.mem_cons, not_or] at h
    rw [commaParts_cons (Ne.symm h.1), ih h.2]

theorem commaParts_append {s : List Char} (h : ',' ∉ s) (rest : List Char) :
    commaParts (s ++ ',' :: ' ' :: rest) = s :: commaParts rest := by
  induction s with
  | nil => rfl
  | cons c s ih =>
    rw [List.mem_cons, not_or] at h
    rw [List.cons_append, commaParts_cons (Ne.symm h.1), ih h.2]

/-- Texts without commas are the parts of the text that they make. -/
theorem commaParts_intercalate {ws : List (List Char)} (hne : ws ≠ []) (h : ∀ w ∈ ws, ',' ∉ w) :
    commaParts (List.intercalate [',', ' '] ws) = ws := by
  induction ws with
  | nil => exact absurd rfl hne
  | cons w ws ih =>
    rw [List.forall_mem_cons] at h
    cases ws with
    | nil =>
      rw [List.intercalate_singleton]
      exact commaParts_of_notMem h.1
    | cons v ws =>
      rw [List.intercalate_cons_cons, List.append_assoc]
      exact (commaParts_append h.1 _).trans (congrArg _ (ih (by simp) h.2))

theorem readNumber_repr (n : Nat) : readNumber (Nat.toDigits 10 n) = some n := by
  have hall : (Nat.toDigits 10 n).all Text.isDigit = true :=
    List.all_eq_true.2 fun _ => Text.isDigit_of_mem_toDigits
  unfold readNumber
  rw [if_pos ⟨Nat.toDigits_ne_nil, hall⟩, Text.digitsValue_toDigits]

/-- The text of a run is read as the interval again, and there is no comma in it. -/
theorem readInterval_run {i : Interval} (h : i.first ≤ i.last) :
    readInterval i.run.text.toList = some i ∧ ',' ∉ i.run.text.toList := by
  have hdigit : ∀ {n : Nat} {c : Char}, c.isAlphanum = false → c ∉ Nat.toDigits 10 n :=
    fun hc hmem => nomatch hc.symm.trans (isAlphanum_of_mem_toDigits hmem)
  have hdash : ∀ n : Nat, '–' ∉ Nat.toDigits 10 n := fun n => hdigit (by decide)
  have hcomma : ∀ n : Nat, ',' ∉ Nat.toDigits 10 n := fun n => hdigit (by decide)
  rcases Nat.eq_or_lt_of_le h with he | hlt
  · obtain ⟨first, last⟩ := i
    obtain rfl : first = last := he
    have htext : (Interval.run ⟨first, first⟩).text.toList = Nat.toDigits 10 first := by
      rw [Interval.run_self]
      exact Text.toList_repr first
    rw [htext]
    refine ⟨?_, hcomma first⟩
    unfold readInterval
    rw [Text.parts_of_notMem (hdash first)]
    dsimp only
    rw [readNumber_repr]
    rfl
  · have htext : i.run.text.toList =
        Nat.toDigits 10 i.first ++ '–' :: Nat.toDigits 10 i.last := by
      rw [Interval.run_of_lt hlt]
      show (Nat.repr i.first ++ "–" ++ Nat.repr i.last).toList = _
      rw [String.toList_append, String.toList_append, Text.toList_repr, Text.toList_repr,
        List.append_assoc]
      rfl
    rw [htext]
    refine ⟨?_, by simp [hcomma]⟩
    unfold readInterval
    rw [Text.parts_append_cons (hdash i.first), Text.parts_of_notMem (hdash i.last)]
    dsimp only
    rw [readNumber_repr, readNumber_repr]
    rfl

theorem mapM_readInterval {is : List Interval} (h : ∀ i ∈ is, i.first ≤ i.last) :
    (is.map fun i => i.run.text.toList).mapM readInterval = some is := by
  induction is with
  | nil => rfl
  | cons i is ih =>
    rw [List.forall_mem_cons] at h
    rw [List.map_cons, List.mapM_cons, (readInterval_run h.1).1, ih h.2]
    rfl

/-- Intervals in words are read as the intervals again. -/
theorem readIntervals_words {is : List Interval} (h : ∀ i ∈ is, i.first ≤ i.last) :
    readIntervals (String.intercalate ", " (is.map fun i => i.run.text)) = some is := by
  have hwords : (String.intercalate ", " (is.map fun i => i.run.text)).toList =
      List.intercalate [',', ' '] (is.map fun i => i.run.text.toList) := by
    rw [String.toList_intercalate, List.map_map]
    rfl
  cases is with
  | nil => rfl
  | cons i is =>
    have hcomma : ∀ w ∈ (i :: is).map (fun i => i.run.text.toList), ',' ∉ w := by
      intro w hw
      obtain ⟨j, hj, rfl⟩ := List.mem_map.1 hw
      exact (readInterval_run (h j hj)).2
    have hparts := commaParts_intercalate (by simp) hcomma
    have hne : String.intercalate ", " ((i :: is).map fun i => i.run.text) ≠ "" := by
      intro he
      have hread := (readInterval_run (h i List.mem_cons_self)).1
      rw [he] at hwords
      rw [← hwords, List.map_cons] at hparts
      rw [← (List.cons.inj hparts).1] at hread
      exact nomatch hread
    unfold readIntervals
    rw [if_neg hne, hwords, ← mapM_readInterval h]
    exact congrArg (List.mapM readInterval) hparts

/-- A text stands for some numbers: it is read as intervals that are these numbers, of which no two
neighbours could be one. -/
def Denotes (text : String) (ns : List Nat) : Prop :=
  ∃ is, readIntervals text = some is ∧ is.flatMap Interval.numbers = ns ∧ is.IsChain Interval.Apart

/-- The texts of ascending numbers drawn together stand for these numbers. -/
theorem consolidate_map_repr {ns : List Nat} (h : ns.Pairwise (· < ·)) :
    (∃ text, consolidate (ns.map Nat.repr) = .ok text ∧ Denotes text ns) ∨
      Overlong ns (consolidate (ns.map Nat.repr)) := by
  unfold consolidate
  rcases runs_map_repr h with hruns | hlong
  · refine .inl ⟨_, by rw [hruns]; rfl, intervals ns, ?_, flatMap_numbers_intervals ns,
      isChain_intervals h⟩
    rw [List.map_map]
    exact readIntervals_words fun i => first_le_last_of_mem_intervals
  · exact .inr (hlong.bind _)

example : (intervals [1, 2, 3, 5, 7, 8]).map (fun i => i.run.text) = ["1–3", "5", "7–8"] := by
  decide

end Bylaws
