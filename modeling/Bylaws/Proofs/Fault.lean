import Bylaws.Fault

/-!
# What may fail

A lookup fails, or it has an answer. Of lookups one after the other an answer needs all of them to
succeed (`Fault.bind_eq_ok`), and the faults are those of the single ones (`OnlyFaults.bind`).
-/

namespace Bylaws

/-- What comes before an answer. -/
theorem Fault.bind_eq_ok {α β : Type} {x : Except Fault α} {f : α → Except Fault β} {b : β}
    (h : x >>= f = .ok b) : ∃ a, x = .ok a ∧ f a = .ok b := by
  cases x with
  | error e => exact nomatch h
  | ok a => exact ⟨a, rfl, h⟩

/-- What an answer is made of. -/
theorem Fault.map_eq_ok {α β : Type} {x : Except Fault α} {f : α → β} {b : β}
    (h : x.map f = .ok b) : ∃ a, x = .ok a ∧ f a = b := by
  cases x with
  | error e => exact nomatch h
  | ok a => exact ⟨a, rfl, Except.ok.inj h⟩

/-- Lookups of one fault each, one after the other, fail if one of them does. -/
theorem Fault.mapM_eq_ite {α β : Type} {g : α → Except Fault β} {p : α → Bool} {f : α → β}
    {e : Fault} (h : ∀ a, g a = if p a then .error e else .ok (f a)) (as : List α) :
    as.mapM g = if as.any p then .error e else .ok (as.map f) := by
  induction as with
  | nil => rfl
  | cons a as ih =>
    rw [List.mapM_cons, h, ih, List.any_cons]
    cases p a with
    | true => rfl
    | false => cases as.any p <;> rfl

/-- All faults that a lookup may end in have a property. -/
def OnlyFaults {α : Type} (P : Fault → Prop) (x : Except Fault α) : Prop := ∀ e, x = .error e → P e

namespace OnlyFaults

variable {α β : Type} {P Q : Fault → Prop}

theorem ok (a : α) : OnlyFaults P (.ok a : Except Fault α) := fun _ h => nomatch h

theorem error {e : Fault} (h : P e) : OnlyFaults P (.error e : Except Fault α) := by
  rintro _ ⟨⟩
  exact h

theorem mono {x : Except Fault α} (h : OnlyFaults P x) (hPQ : ∀ e, P e → Q e) :
    OnlyFaults Q x := fun e he => hPQ e (h e he)

theorem bind {x : Except Fault α} {f : α → Except Fault β} (h : OnlyFaults P x)
    (hf : ∀ a, x = .ok a → OnlyFaults P (f a)) : OnlyFaults P (x >>= f) := by
  cases x with
  | error e => exact .error (h e rfl)
  | ok a => exact hf a rfl

theorem map {x : Except Fault α} (h : OnlyFaults P x) (f : α → β) : OnlyFaults P (x.map f) := by
  cases x with
  | error e => exact .error (h e rfl)
  | ok a => exact .ok _

end OnlyFaults

end Bylaws
