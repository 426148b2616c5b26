import Bylaws.Machine
import Bylaws.Proofs.Fault
import Bylaws.Proofs.Store.Shows
import Mathlib.Data.List.TakeWhile

/-!
# What a machine can do

A machine copes with some number of levels if its stack suffices for every value and every document
that nests no deeper (`Machine.Copes`). Settings are read as on the plain machine where all their
values can be shown (`Machine.checkSettings_eq_ok_iff`), and an output refuses a text only for a
half of a pair in it (`Machine.checkOutput_cases`).
-/

namespace Bylaws

/-! ## Levels -/

namespace Value

theorem levels_le_of_mem {items : List Value} {v : Value} (h : v ∈ items) :
    v.levels ≤ levelsIn items := by
  induction items with
  | nil => exact absurd h List.not_mem_nil
  | cons w items ih =>
    rw [levelsIn]
    rcases List.mem_cons.1 h with rfl | h
    · exact Nat.le_max_left _ _
    · exact Nat.le_trans (ih h) (Nat.le_max_right _ _)

theorem levels_le_of_mem_entries {entries : List (Value × Value)} {e : Value × Value}
    (h : e ∈ entries) : e.2.levels ≤ levelsInEntries entries := by
  induction entries with
  | nil => exact absurd h List.not_mem_nil
  | cons f entries ih =>
    rw [levelsInEntries]
    rcases List.mem_cons.1 h with rfl | h
    · exact Nat.le_trans (Nat.le_max_right _ _) (Nat.le_max_left _ _)
    · exact Nat.le_trans (ih h) (Nat.le_max_right _ _)

theorem levels_headD_le (items : List Value) : (items.headD .null).levels ≤ levelsIn items := by
  cases items with
  | nil => exact Nat.zero_le _
  | cons v items => exact levels_le_of_mem List.mem_cons_self

theorem levels_le_of_entry? {entries : List (Value × Value)} {key : String} {v : Value}
    (h : entry? entries key = some v) : v.levels ≤ levelsInEntries entries := by
  obtain ⟨e, he, rfl⟩ := Option.map_eq_some_iff.1 h
  exact levels_le_of_mem_entries (List.mem_of_find?_eq_some he)

end Value

/-- The shape of a document is that of its forest. -/
theorem Store.Shows.shape_eq {s : Store} {f : Forest} (h : s.Shows f) :
    s.shape = (f.lines 1).map fun l => (l.fields, l.depth) := by
  rw [← h.lines_eq]
  unfold shape lines
  rw [List.map_map]
  rfl

namespace Machine

variable {m : Machine} {n : Nat} {v : Value}

/-- The stack suffices for all that nests no more than `n` levels deep. -/
structure Copes (m : Machine) (n : Nat) : Prop where
  showing : ∀ v : Value, v.levels ≤ n → m.overflowsShowing v = false
  writing : ∀ format view ps, (∀ e ∈ ps, e.2 ≤ n) → m.overflowsWriting format view ps = false

/-- A machine whose stack ends after `n` levels and whose output refuses halves of pairs. -/
def upTo (n : Nat) : Machine where
  overflowsShowing v := n < v.levels
  overflowsWriting _ _ ps := ps.any fun e => n < e.2
  strictOutput := true

theorem copes_upTo (n : Nat) : (upTo n).Copes n where
  showing _ hv := decide_eq_false (Nat.not_lt.2 hv)
  writing _ _ _ hps := List.any_eq_false.2 fun e he => by simpa using hps e he

theorem Copes.overflows (h : m.Copes n) (hv : v.levels ≤ n) : m.overflows v = false := by
  rw [Machine.overflows, h.showing v hv, Bool.and_false]

/-! ## Showing -/

theorem shallow_eq_self (h : m.showsAll v = true) : m.shallow v = v := by
  cases v with
  | dict entries =>
    have hall : ∀ e ∈ entries, (!m.overflows e.2) = true := List.all_eq_true.1 h
    exact congrArg Value.dict (List.takeWhile_eq_self_iff.2 hall)
  | _ => rfl

/-- Settings pass if all their values can be shown and they are read without a fault. -/
theorem checkSettings_eq_ok_iff {α : Type} [Setting α] :
    m.checkSettings α v = .ok () ↔
      m.showsAll v = true ∧ ∃ s : Settings α, Settings.ofValue v = .ok s := by
  unfold checkSettings
  constructor
  · intro h
    obtain ⟨s, hs, h⟩ := Fault.bind_eq_ok h
    split_ifs at h with hall
    rw [shallow_eq_self hall] at hs
    exact ⟨hall, s, hs⟩
  · rintro ⟨hall, s, hs⟩
    rw [shallow_eq_self hall, hs]
    exact if_pos hall

/-- Some value of a dictionary cannot be shown. -/
theorem exists_overflows_of_showsAll (h : m.showsAll v = false) :
    ∃ entries, v = .dict entries ∧ ∃ e ∈ entries, m.overflows e.2 = true := by
  cases v with
  | dict entries =>
    refine ⟨entries, rfl, ?_⟩
    simpa [showsAll] using h
  | _ => exact nomatch h

/-! ## Storing and output -/

theorem checkStored_memory {s : Store} {items : List Value} (h : s.medium = .memory) :
    m.checkStored s items = .ok () := by
  unfold checkStored
  rw [h]

/-- Only a database refuses a text. -/
theorem checkStored_eq_error {s : Store} {items : List Value} {e : Fault}
    (h : m.checkStored s items = .error e) :
    s.medium = .database ∧ m.refusal? s items = some e := by
  unfold checkStored at h
  split at h
  · next hmedium hrefusal =>
    cases h
    exact ⟨hmedium, hrefusal⟩
  · exact nomatch h

/-- A text is refused for the halves of pairs in it. -/
theorem checkOutput_cases (m : Machine) (text : String) :
    m.checkOutput text = .ok () ∨
      m.strictOutput = true ∧ (∃ c ∈ text.toList, Text.isStandIn c = true) ∧
        ∃ half first last, m.checkOutput text = .error (.unencodable half first last) := by
  unfold checkOutput
  dsimp only
  split
  · exact .inl rfl
  · next half more hrun =>
    split_ifs with hstrict
    · have hmem : half ∈ (text.toList.drop
          (text.toList.takeWhile fun c => !Text.isStandIn c).length).takeWhile Text.isStandIn := by
        rw [hrun]
        exact List.mem_cons_self
      exact .inr ⟨hstrict, ⟨half, List.mem_of_mem_drop (List.takeWhile_subset _ hmem),
        List.mem_takeWhile_imp hmem⟩, _, _, _, rfl⟩
    · exact .inl rfl

end Machine

end Bylaws
