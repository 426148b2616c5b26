import Bylaws.Proofs.Fault
import Bylaws.Settings

/-!
# Settings as maps

Storing a setting changes what is found under its canonical key and under no other one
(`Settings.find?_insert`). So storing many of them, as far as that goes, leaves alone every key that
none of them is stored under (`Settings.find?_setAll`).
-/

namespace Bylaws.Settings

variable {α : Type}

theorem find?_put (key key' : String) (a : α) (entries : List (String × α)) :
    (⟨put key a entries⟩ : Settings α).find? key' =
      if key' = key then some a else (⟨entries⟩ : Settings α).find? key' := by
  unfold find?
  induction entries with
  | nil =>
    by_cases h : key' = key
    · simp [put, h]
    · simp [put, h, Ne.symm h]
  | cons e rest ih =>
    unfold put
    by_cases he : e.1 = key
    · subst he
      by_cases h : key' = e.1
      · simp [h]
      · simp [h, Ne.symm h]
    · rw [if_neg he]
      by_cases h : key' = e.1
      · subst h
        simp [he]
      · have hne : (e.1 == key') = false := beq_false_of_ne (Ne.symm h)
        simp only [List.find?_cons, hne]
        exact ih

/-- What is found after storing a setting. -/
theorem find?_insert (s : Settings α) (key key' : String) (a : α) :
    (s.insert key a).find? key' = if key' = key then some a else s.find? key' :=
  find?_put key key' a s.entries

variable {s t : Settings α} {key value : Value} {k : String}

/-- Nothing is found for a key that is not there. -/
theorem find?_of_contains (h : s.contains key = .ok false) (hk : canonicalKey key = .ok k) :
    s.find? k = none := by
  unfold contains at h
  rw [hk] at h
  exact Option.isNone_iff_eq_none.1 (Option.isSome_eq_false_iff.1 (Except.ok.inj h))

variable [Setting α]

/-- A value is stored under the canonical form of its key. -/
theorem set_eq_ok (h : s.set key value = .ok t) :
    ∃ a, Setting.ofValue value = .ok a ∧ ∃ k, canonicalKey key = .ok k ∧ t = s.insert k a := by
  obtain ⟨a, ha, h⟩ := Fault.bind_eq_ok h
  obtain ⟨k, hk, h⟩ := Fault.bind_eq_ok h
  exact ⟨a, ha, k, hk, (Except.ok.inj h).symm⟩

theorem find?_set (h : s.set key value = .ok t) (hk : canonicalKey key ≠ .ok k) :
    t.find? k = s.find? k := by
  obtain ⟨a, -, k', hkey, rfl⟩ := set_eq_ok h
  have hne : k ≠ k' := by
    rintro rfl
    exact hk hkey
  rw [find?_insert, if_neg hne]

/-- Whether or not all pairs can be stored, what is found under other keys stays as it was. -/
theorem find?_setAll {pairs : List (Except Fault (Value × Value))}
    (h : ∀ key value, .ok (key, value) ∈ pairs → canonicalKey key ≠ .ok k) :
    (s.setAll pairs).2.find? k = s.find? k := by
  induction pairs generalizing s with
  | nil => rfl
  | cons pair rest ih =>
    cases pair with
    | error e => rfl
    | ok entry =>
      obtain ⟨key, value⟩ := entry
      unfold setAll
      cases ht : s.set key value with
      | error e => rfl
      | ok t =>
        dsimp only
        rw [ih fun key' value' hmem => h key' value' (List.mem_cons_of_mem _ hmem),
          find?_set ht (h key value List.mem_cons_self)]

end Bylaws.Settings
