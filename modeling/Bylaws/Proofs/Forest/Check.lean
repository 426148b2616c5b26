import Bylaws.Forest.Check
import Bylaws.Proofs.Decimal
import Bylaws.Proofs.Fault
import Bylaws.Proofs.Sorting
import Mathlib

/-!
# What the check of positions finds

`Store.problems_exact`: the check lists just the defects that are there, for any rows whatever, and
each of them once. It finds none exactly if the positions of all siblings are as many numbers from
one upward, and every parent is there. Only a defect whose numbers have too many digits to be
written keeps it from saying so.

1. Sorted positions are the expected ones just if as a whole they are the numbers from one to their
   count (`positions_eq_expected_iff`).
2. A defect belongs to one scope, and every scope is looked at once (`nodup_scopes`).
3. The words of a defect begin with its scope, and the next character tells what sort of defect
   it is (`words_inj`), so no two messages are the same.
-/

namespace Bylaws.Store

/-! ## Scopes -/

theorem foldl_scopes (ps : List Paragraph) (found : List (Option Int)) (h : found.Nodup) :
    (ps.foldl (fun found p => if found.contains p.parent then found
      else found ++ [p.parent]) found).Nodup ∧
    ∀ scope, scope ∈ ps.foldl (fun found p => if found.contains p.parent then found
      else found ++ [p.parent]) found ↔ scope ∈ found ∨ ∃ p ∈ ps, p.parent = scope := by
  induction ps generalizing found with
  | nil => exact ⟨h, by simp⟩
  | cons p ps ih =>
    rw [List.foldl_cons]
    by_cases hc : p.parent ∈ found
    · rw [if_pos (by simpa using hc)]
      refine ⟨(ih found h).1, fun scope => ((ih found h).2 scope).trans ?_⟩
      rw [List.exists_mem_cons_iff, or_left_comm]
      exact (or_iff_right_of_imp fun he => .inl (he ▸ hc)).symm
    · rw [if_neg (by simpa using hc)]
      have hn : (found ++ [p.parent]).Nodup :=
        h.append (List.nodup_singleton _) (List.disjoint_singleton.2 hc)
      refine ⟨(ih _ hn).1, fun scope => ((ih _ hn).2 scope).trans ?_⟩
      rw [List.exists_mem_cons_iff, List.mem_append, List.mem_singleton, or_assoc, eq_comm]

/-- Every scope is looked at once. -/
theorem nodup_scopes (ps : List Paragraph) : (scopes ps).Nodup :=
  (foldl_scopes ps [] .nil).1

theorem mem_scopes {ps : List Paragraph} {scope : Option Int} :
    scope ∈ scopes ps ↔ ∃ p ∈ ps, p.parent = scope :=
  ((foldl_scopes ps [] .nil).2 scope).trans (by simp)

/-! ## Positions -/

/-- The positions right below a paragraph, or at the top level, in any order. -/
def positionsBelow (s : Store) (scope : Option Int) : Multiset Int :=
  ((s.paragraphs.filter (·.parent == scope)).map (·.position) : List Int)

/-- The positions in a scope are one, two, three and so on, each once. -/
def Contiguous (s : Store) (scope : Option Int) : Prop :=
  s.positionsBelow scope = (Finset.Icc 1 ((s.positionsBelow scope).card : Int)).val

theorem length_expectedPositions (n : Nat) : (expectedPositions n).length = n := by
  unfold expectedPositions
  rw [List.length_map, List.length_range]

theorem expectedPositions_eq (n : Nat) :
    expectedPositions n = (List.range n).map fun i : Nat => 1 + (i : Int) := by
  unfold expectedPositions
  apply List.map_congr_left
  intro i _
  show ((i + 1 : Nat) : Int) = 1 + i
  omega

theorem pairwise_expectedPositions (n : Nat) : (expectedPositions n).Pairwise (· < ·) := by
  rw [expectedPositions_eq, List.pairwise_map]
  exact List.pairwise_lt_range.imp fun hlt => by omega

theorem coe_expectedPositions (n : Nat) :
    (expectedPositions n : Multiset Int) = (Finset.Icc 1 (n : Int)).val := by
  have hn : (expectedPositions n).Nodup := (pairwise_expectedPositions n).imp fun h => h.ne
  refine (Multiset.Nodup.ext (Multiset.coe_nodup.2 hn) (Finset.nodup _)).2 fun x => ?_
  rw [Multiset.mem_coe, expectedPositions_eq, Finset.mem_val, Finset.mem_Icc, List.mem_map]
  constructor
  · rintro ⟨i, hi, rfl⟩
    have := List.mem_range.1 hi
    omega
  · intro hx
    exact ⟨(x - 1).toNat, List.mem_range.2 (by omega), by omega⟩

theorem pairwise_positions (ps : List Paragraph) (scope : Option Int) :
    (positions ps scope).Pairwise (· ≤ ·) := by
  have h : (positions ps scope).Pairwise fun x y => decide (x ≤ y) = true :=
    pairwise_sortBy (fun x y => by simp only [decide_eq_true_eq]; omega)
      (fun x y z => by simp only [decide_eq_true_eq]; omega) _
  exact h.imp fun h => of_decide_eq_true h

theorem coe_positions (s : Store) (scope : Option Int) :
    (positions s.paragraphs scope : Multiset Int) = s.positionsBelow scope :=
  Multiset.coe_eq_coe.2 (sortBy_perm _ _)

/-- A row of numbers in increasing order is told by what it holds as a whole. -/
theorem eq_sort {ns : List Int} {M : Multiset Int} (h : ns.Pairwise (· ≤ ·))
    (he : (ns : Multiset Int) = M) : ns = M.sort := by
  refine List.Perm.eq_of_pairwise (fun _ _ _ _ => le_antisymm) h (Multiset.pairwise_sort M _) ?_
  rw [← Multiset.coe_eq_coe, Multiset.sort_eq, he]

theorem positions_eq_sort (s : Store) (scope : Option Int) :
    positions s.paragraphs scope = (s.positionsBelow scope).sort :=
  eq_sort (pairwise_positions _ _) (coe_positions s scope)

theorem expectedPositions_eq_sort (n : Nat) :
    expectedPositions n = (Finset.Icc 1 (n : Int)).val.sort :=
  eq_sort ((pairwise_expectedPositions n).imp fun h => h.le) (coe_expectedPositions n)

/-- The sorted positions of a scope are the expected ones just if they are so as a whole. -/
theorem positions_eq_expected_iff {s : Store} {scope : Option Int} :
    positions s.paragraphs scope = expectedPositions (positions s.paragraphs scope).length ↔
      s.Contiguous scope := by
  have hlen : (positions s.paragraphs scope).length = (s.positionsBelow scope).card := by
    rw [← coe_positions, Multiset.coe_card]
  rw [hlen, expectedPositions_eq_sort, positions_eq_sort]
  refine ⟨fun h => ?_, fun h => congrArg _ h⟩
  have hwhole := congrArg (fun ns : List Int => (ns : Multiset Int)) h
  simp only [Multiset.sort_eq] at hwhole
  exact hwhole

theorem contiguous_of_perm {s : Store} {scope : Option Int} {n : Nat}
    (h : ((s.paragraphs.filter (·.parent == scope)).map (·.position)).Perm (expectedPositions n)) :
    s.Contiguous scope := by
  have he : s.positionsBelow scope = (expectedPositions n : Multiset Int) := Multiset.coe_eq_coe.2 h
  have hcard : (s.positionsBelow scope).card = n := by
    rw [he, Multiset.coe_card, length_expectedPositions]
  rw [Contiguous, hcard, he, coe_expectedPositions]

/-! ## Defects -/

namespace Problem

/-- The scope that a defect belongs to. -/
def scope : Problem → Option Int
  | .positions scope _ => scope
  | .missingParent id => some id

/-- A defect is there: siblings whose positions are other than one, two, three and so on, given in
increasing order, or a parent that is named but not there. -/
def Occurs (s : Store) : Problem → Prop
  | .positions scope found =>
    (∃ p ∈ s.paragraphs, p.parent = scope) ∧ ¬ s.Contiguous scope ∧
      found = (s.positionsBelow scope).sort
  | .missingParent id =>
    (∃ p ∈ s.paragraphs, p.parent = some id) ∧ ∀ p ∈ s.paragraphs, p.id ≠ id

/-! ## Messages -/

/-- The words for a scope, with no limit of digits. -/
def scopeWords : Option Int → String
  | none => "None"
  | some id => Decimal.intText id

/-- The words for some positions, with no limit of digits. -/
def positionsWords (ns : List Int) : String :=
  "[" ++ String.intercalate ", " (ns.map Decimal.intText) ++ "]"

/-- The words of a defect, with no limit of digits. -/
def words : Problem → String
  | .positions scope found =>
    "parent " ++ scopeWords scope ++ ": positions " ++ positionsWords found ++ " != " ++
      positionsWords (expectedPositions found.length)
  | .missingParent id => "parent " ++ Decimal.intText id ++ " does not exist"

/-- The numbers in the words of a defect. -/
def numbers : Problem → List Int
  | .positions scope found => scope.toList ++ (expectedPositions found.length ++ found)
  | .missingParent id => [id]

/-- A number in the words of a defect has too many digits. -/
def isTooLong (x : Problem) : Bool := x.numbers.any Decimal.isTooLong

theorem positionsText_eq (ns : List Int) :
    positionsText ns = if ns.any Decimal.isTooLong then .error .integerUnwritable
      else .ok (positionsWords ns) := by
  have hmap : ns.mapM Value.intText = if ns.any Decimal.isTooLong then .error .integerUnwritable
      else .ok (ns.map Decimal.intText) := Fault.mapM_eq_ite (fun _ => rfl) ns
  unfold positionsText
  rw [hmap]
  cases ns.any Decimal.isTooLong <;> rfl

theorem scopeText_eq (scope : Option Int) :
    scopeText scope = if scope.toList.any Decimal.isTooLong then .error .integerUnwritable
      else .ok (scopeWords scope) := by
  cases scope with
  | none => rfl
  | some id =>
    rw [Option.toList_some, List.any_cons, List.any_nil, Bool.or_false]
    rfl

/-- A defect has its words, unless a number in them has too many digits. -/
theorem message_eq (x : Problem) :
    x.message = if x.isTooLong then .error .integerUnwritable else .ok x.words := by
  unfold message isTooLong numbers
  cases x with
  | positions scope found =>
    dsimp only
    rw [scopeText_eq, positionsText_eq, positionsText_eq, List.any_append, List.any_append]
    cases scope.toList.any Decimal.isTooLong with
    | true => rfl
    | false =>
      cases (expectedPositions found.length).any Decimal.isTooLong with
      | true => rfl
      | false => cases found.any Decimal.isTooLong <;> rfl
  | missingParent id =>
    dsimp only
    rw [List.any_cons, List.any_nil, Bool.or_false]
    unfold Value.intText
    cases Decimal.isTooLong id <;> rfl

theorem message_eq_ok_iff {x : Problem} {text : String} :
    x.message = .ok text ↔ x.isTooLong = false ∧ x.words = text := by
  rw [message_eq]
  split_ifs with hlong
  · exact ⟨fun h => (nomatch h), fun h => nomatch hlong.symm.trans h.1⟩
  · exact ⟨fun h => ⟨Bool.eq_false_iff.2 hlong, Except.ok.inj h⟩, fun h => congrArg _ h.2⟩

theorem scopeWords_injective : Function.Injective scopeWords := by
  have hne : ∀ id, scopeWords none ≠ scopeWords (some id) := by
    intro id h
    have hn : 'N' ∈ (Decimal.intText id).toList := by
      rw [show Decimal.intText id = "None" from h.symm]
      decide
    rcases Decimal.isDigit_or_of_mem_intText hn with hd | hd
    · exact absurd hd (by decide)
    · exact absurd hd (by decide)
  intro a b h
  cases a with
  | none =>
    cases b with
    | none => rfl
    | some id => exact absurd h (hne id)
  | some id =>
    cases b with
    | none => exact absurd h.symm (hne id)
    | some id' => exact congrArg some (Decimal.intText_injective h)

/-- A character that may stand in the name of a scope. -/
def isScopeChar (c : Char) : Bool := c.isAlphanum || c = '-'

theorem isScopeChar_of_mem {scope : Option Int} {c : Char} (h : c ∈ (scopeWords scope).toList) :
    isScopeChar c = true := by
  cases scope with
  | none => exact List.all_eq_true.1 (by decide : "None".toList.all isScopeChar = true) c h
  | some id =>
    unfold isScopeChar
    rcases Decimal.isDigit_or_of_mem_intText h with hd | rfl
    · rw [Char.isAlphanum, hd, Bool.or_true, Bool.true_or]
    · rfl

/-- The character after the scope in a message. -/
def mark : Problem → Char
  | .positions .. => ':'
  | .missingParent _ => ' '

theorem words_eq (x : Problem) : ∃ rest : List Char,
    x.words.toList = "parent ".toList ++ ((scopeWords x.scope).toList ++ x.mark :: rest) := by
  cases x with
  | positions scope found =>
    refine ⟨(" positions " ++ positionsWords found ++ " != " ++
      positionsWords (expectedPositions found.length)).toList, ?_⟩
    simp [words, Problem.scope, mark, String.toList_append]
  | missingParent id =>
    refine ⟨"does not exist".toList, ?_⟩
    simp [words, Problem.scope, mark, scopeWords, String.toList_append]

/-- The words of a defect tell its scope and what sort it is. -/
theorem words_inj {x y : Problem} (h : x.words = y.words) :
    x.scope = y.scope ∧ x.mark = y.mark := by
  obtain ⟨restx, hx⟩ := x.words_eq
  obtain ⟨resty, hy⟩ := y.words_eq
  have htail := List.append_cancel_left (hx.symm.trans ((congrArg String.toList h).trans hy))
  have hstop : ∀ z : Problem, isScopeChar z.mark = false := fun z => by cases z <;> rfl
  have htake : ∀ (z : Problem) (rest : List Char),
      ((scopeWords z.scope).toList ++ z.mark :: rest).takeWhile isScopeChar =
        (scopeWords z.scope).toList := by
    intro z rest
    rw [List.takeWhile_append_of_pos fun c => isScopeChar_of_mem,
      List.takeWhile_cons_of_neg (by simp [hstop z]), List.append_nil]
  have hscope := congrArg (List.takeWhile isScopeChar) htail
  rw [htake x, htake y] at hscope
  rw [hscope] at htail
  exact ⟨scopeWords_injective (String.toList_injective hscope),
    (List.cons.inj (List.append_cancel_left htail)).1⟩

end Problem

/-! ## The check -/

variable {s : Store}

theorem mem_problemsIn_iff {scope : Option Int} {x : Problem} :
    x ∈ problemsIn s.paragraphs scope ↔
      (x = .positions scope (positions s.paragraphs scope) ∧ ¬ s.Contiguous scope) ∨
        ∃ id, scope = some id ∧ x = .missingParent id ∧ ∀ p ∈ s.paragraphs, p.id ≠ id := by
  unfold problemsIn
  dsimp only
  rw [List.mem_append]
  refine or_congr ?_ ?_
  · by_cases h : s.Contiguous scope
    · rw [if_pos (positions_eq_expected_iff.2 h)]
      simp [h]
    · rw [if_neg (mt positions_eq_expected_iff.1 h)]
      simp [h]
  · cases scope with
    | none => simp
    | some id =>
      by_cases h : ∃ p ∈ s.paragraphs, p.id = id
      · have hany : s.paragraphs.any (·.id == id) = true := by simpa using h
        obtain ⟨p, hp, hid⟩ := h
        simp only [hany, if_true, List.not_mem_nil, false_iff]
        rintro ⟨id', hscope, -, hnone⟩
        exact hnone p hp (hid.trans (Option.some.inj hscope))
      · have hany : s.paragraphs.any (·.id == id) = false := by simpa using h
        push Not at h
        simpa [hany] using fun _ => h

/-- A defect is listed for its own scope only. -/
theorem scope_of_mem_problemsIn {scope : Option Int} {x : Problem}
    (h : x ∈ problemsIn s.paragraphs scope) : x.scope = scope := by
  rcases mem_problemsIn_iff.1 h with ⟨rfl, -⟩ | ⟨id, rfl, rfl, -⟩
  · rfl
  · rfl

/-- The check lists the defects that are there, and nothing else. -/
theorem mem_problems_iff {x : Problem} : x ∈ s.problems ↔ x.Occurs s := by
  unfold problems
  rw [List.mem_flatMap]
  constructor
  · rintro ⟨scope, hscope, hx⟩
    rcases mem_problemsIn_iff.1 hx with ⟨rfl, hnot⟩ | ⟨id, rfl, rfl, hmissing⟩
    · exact ⟨mem_scopes.1 hscope, hnot, positions_eq_sort s scope⟩
    · exact ⟨mem_scopes.1 hscope, hmissing⟩
  · intro hx
    cases x with
    | positions scope found =>
      obtain ⟨hscope, hnot, hfound⟩ := hx
      rw [← positions_eq_sort] at hfound
      exact ⟨scope, mem_scopes.2 hscope, mem_problemsIn_iff.2 (.inl ⟨by rw [hfound], hnot⟩)⟩
    | missingParent id =>
      obtain ⟨hscope, hmissing⟩ := hx
      exact ⟨some id, mem_scopes.2 hscope, mem_problemsIn_iff.2 (.inr ⟨id, rfl, rfl, hmissing⟩)⟩

theorem nodup_problemsIn (s : Store) (scope : Option Int) :
    (problemsIn s.paragraphs scope).Nodup := by
  unfold problemsIn
  dsimp only
  refine List.Nodup.append ?_ ?_ ?_
  · split_ifs
    · exact .nil
    · exact List.nodup_singleton _
  · cases scope with
    | none => exact .nil
    | some id =>
      dsimp only
      split_ifs
      · exact .nil
      · exact List.nodup_singleton _
  · intro x hx hy
    cases x with
    | positions scope' found =>
      cases scope with
      | none => exact absurd hy List.not_mem_nil
      | some id =>
        dsimp only at hy
        split_ifs at hy
        · exact absurd hy List.not_mem_nil
        · exact nomatch List.mem_singleton.1 hy
    | missingParent id =>
      split_ifs at hx
      · exact absurd hx List.not_mem_nil
      · exact nomatch List.mem_singleton.1 hx

theorem nodup_problems (s : Store) : s.problems.Nodup := by
  refine List.nodup_flatMap.2 ⟨fun scope _ => nodup_problemsIn _ scope, ?_⟩
  refine (nodup_scopes s.paragraphs).imp fun hne x hx hy => hne ?_
  rw [← scope_of_mem_problemsIn hx, scope_of_mem_problemsIn hy]

/-- Two defects of one scope and of one sort are the same. -/
theorem eq_of_occurs {x y : Problem} (hx : x.Occurs s) (hy : y.Occurs s)
    (hscope : x.scope = y.scope) (hmark : x.mark = y.mark) : x = y := by
  cases x with
  | positions scope found =>
    cases y with
    | positions scope' found' =>
      obtain rfl : scope = scope' := hscope
      rw [hx.2.2, hy.2.2]
    | missingParent id => exact absurd hmark (by decide : (':' : Char) ≠ ' ')
  | missingParent id =>
    cases y with
    | positions scope' found' => exact absurd hmark (by decide : (' ' : Char) ≠ ':')
    | missingParent id' => rw [Option.some.inj hscope]

theorem words_injOn (s : Store) : Set.InjOn Problem.words {x | x.Occurs s} := by
  intro x hx y hy h
  obtain ⟨hscope, hmark⟩ := Problem.words_inj h
  exact eq_of_occurs hx hy hscope hmark

theorem nodup_words (s : Store) : (s.problems.map Problem.words).Nodup :=
  (nodup_problems s).map_on fun _ hx _ hy h =>
    words_injOn s (mem_problems_iff.1 hx) (mem_problems_iff.1 hy) h

/-- What the check says. -/
theorem check_eq (s : Store) :
    s.check = if s.problems.any Problem.isTooLong then .error .integerUnwritable
      else .ok (s.problems.map Problem.words) :=
  Fault.mapM_eq_ite Problem.message_eq _

/-- The check finds nothing exactly if all siblings have the positions from one upward and all
parents are there. -/
theorem problems_eq_nil_iff : s.problems = [] ↔ ∀ p ∈ s.paragraphs, s.Contiguous p.parent ∧
    ∀ id, p.parent = some id → ∃ q ∈ s.paragraphs, q.id = id := by
  rw [List.eq_nil_iff_forall_not_mem]
  simp only [mem_problems_iff]
  constructor
  · intro h p hp
    constructor
    · by_contra hnot
      exact h (.positions p.parent _) ⟨⟨p, hp, rfl⟩, hnot, rfl⟩
    · intro id hid
      by_contra hmissing
      push Not at hmissing
      exact h (.missingParent id) ⟨⟨p, hp, hid⟩, hmissing⟩
  · intro h x hx
    cases x with
    | positions scope found =>
      obtain ⟨⟨p, hp, rfl⟩, hnot, -⟩ := hx
      exact hnot (h p hp).1
    | missingParent id =>
      obtain ⟨⟨p, hp, hid⟩, hmissing⟩ := hx
      obtain ⟨q, hq, hqid⟩ := (h p hp).2 id hid
      exact hmissing q hq hqid

/-- The check gives no message exactly if the siblings of every paragraph have the positions from
one upward and its parent is there. If it gives messages, there is one for each defect that is
there, once, and no other message, and no two defects have the same. It fails only if there is a
defect with a number of too many digits in its message. -/
theorem problems_exact (s : Store) :
    (s.check = .ok [] ↔ ∀ p ∈ s.paragraphs, s.Contiguous p.parent ∧
      ∀ id, p.parent = some id → ∃ q ∈ s.paragraphs, q.id = id) ∧
    (∀ texts, s.check = .ok texts →
      (∀ x : Problem, x.Occurs s → ∃ text, x.message = .ok text ∧ texts.count text = 1) ∧
      (∀ text ∈ texts, ∃ x : Problem, x.Occurs s ∧ x.message = .ok text)) ∧
    (∀ x y : Problem, x.Occurs s → y.Occurs s → ∀ text, x.message = .ok text →
      y.message = .ok text → x = y) ∧
    ((∃ texts, s.check = .ok texts) ∧
        (∀ x : Problem, x.Occurs s → ∀ n ∈ x.numbers, Decimal.isTooLong n = false) ∨
      s.check = .error .integerUnwritable ∧
        ∃ x : Problem, x.Occurs s ∧ ∃ n ∈ x.numbers, Decimal.isTooLong n = true) := by
  refine ⟨?_, fun texts htexts => ?_, fun x y hx hy text htx hty => ?_, ?_⟩
  · rw [← problems_eq_nil_iff, check_eq]
    cases s.problems with
    | nil => exact ⟨fun _ => rfl, fun _ => rfl⟩
    | cons x xs =>
      refine ⟨fun h => ?_, fun h => nomatch h⟩
      split_ifs at h
      exact nomatch Except.ok.inj h
  · rw [check_eq] at htexts
    split_ifs at htexts with hlong
    have hshort : ∀ x ∈ s.problems, x.isTooLong = false := by simpa using hlong
    obtain rfl := Except.ok.inj htexts
    refine ⟨fun x hx => ?_, fun text htext => ?_⟩
    · have hmem := mem_problems_iff.2 hx
      exact ⟨x.words, Problem.message_eq_ok_iff.2 ⟨hshort x hmem, rfl⟩,
        List.count_eq_one_of_mem (nodup_words s) (List.mem_map_of_mem hmem)⟩
    · obtain ⟨x, hx, rfl⟩ := List.mem_map.1 htext
      exact ⟨x, mem_problems_iff.1 hx, Problem.message_eq_ok_iff.2 ⟨hshort x hx, rfl⟩⟩
  · exact words_injOn s hx hy
      ((Problem.message_eq_ok_iff.1 htx).2.trans (Problem.message_eq_ok_iff.1 hty).2.symm)
  · rw [check_eq]
    split_ifs with hlong
    · obtain ⟨x, hx, hn⟩ := List.any_eq_true.1 hlong
      exact .inr ⟨rfl, x, mem_problems_iff.1 hx, List.any_eq_true.1 hn⟩
    · refine .inl ⟨⟨_, rfl⟩, fun x hx n hn => ?_⟩
      have hshort : ∀ x ∈ s.problems, ∀ n ∈ x.numbers, Decimal.isTooLong n = false := by
        simpa [Problem.isTooLong] using hlong
      exact hshort x (mem_problems_iff.2 hx) n hn

/-- A gap at the top level, and a place below a parent that is not there. -/
def damaged : Store :=
  { documentId := "d", rows :=
    [{ id := 1, documentId := "d", parent := none, position := 3 },
      { id := 2, documentId := "d", parent := none, position := 1 },
      { id := 3, documentId := "d", parent := some 9, position := 0 }] }

theorem problems_exact_damaged :
    ∃ texts, damaged.check = .ok texts ∧ texts =
      ["parent None: positions [1, 3] != [1, 2]", "parent 9: positions [0] != [1]",
        "parent 9 does not exist"] ∧
      texts.count "parent 9 does not exist" = 1 := by
  have hcheck : damaged.check =
      .ok ["parent None: positions [1, 3] != [1, 2]", "parent 9: positions [0] != [1]",
        "parent 9 does not exist"] := by
    rw [check_eq, if_neg (by decide +kernel)]
    exact congrArg _ (by decide +kernel)
  obtain ⟨text, htext, hcount⟩ :=
    ((problems_exact damaged).2.1 _ hcheck).1 (.missingParent 9) ⟨by decide, by decide⟩
  obtain rfl := (Problem.message_eq_ok_iff.1 htext).2
  exact ⟨_, hcheck, rfl, hcount⟩

end Bylaws.Store
