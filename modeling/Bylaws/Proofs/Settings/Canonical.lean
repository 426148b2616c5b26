import Bylaws.Proofs.Lowercase
import Bylaws.Proofs.Settings
import Mathlib.Data.List.Nodup
import Mathlib.Data.List.Perm.Subperm

/-!
# Maps with canonical keys

The canonical form of a text is its own canonical form (`canonical_canonical`). So in a map whose
keys are distinct and canonical (`Settings.Canonical`) every stored key is found when it is looked up
again: going through the entries, taking out the first one, clearing the map and comparing it with
another one all do this, and none of them misses a key.
-/

namespace Bylaws

/-! ## Canonical keys -/

theorem canonical_canonical (s : String) : canonical (canonical s) = canonical s := by
  unfold canonical
  rw [String.toList_ofList, Text.trim_eq_self_iff.2 (Text.trimmed_trim _).lower, Text.lower_lower]

theorem exists_canonical {key : Value} {k : String} (h : canonicalKey key = .ok k) :
    ∃ s, canonical s = k := by
  unfold canonicalKey at h
  split at h
  all_goals
    obtain ⟨s, -, hs⟩ := Fault.map_eq_ok h
    exact ⟨s, hs⟩

/-- A canonical form addresses the same entry as what it is the form of. -/
theorem canonicalKey_text {key : Value} {k : String} (h : canonicalKey key = .ok k) :
    canonicalKey (.text k) = .ok k := by
  obtain ⟨s, rfl⟩ := exists_canonical h
  exact congrArg _ (canonical_canonical s)

namespace Settings

variable {α : Type}

def keys (s : Settings α) : List String := s.entries.map (·.1)

/-- The keys of a map are distinct, and each is its own canonical form. -/
structure Canonical (s : Settings α) : Prop where
  nodup : s.keys.Nodup
  fixed : ∀ k ∈ s.keys, canonicalKey (.text k) = .ok k

theorem canonical_empty : Canonical (⟨[]⟩ : Settings α) :=
  ⟨List.nodup_nil, fun _ h => absurd h List.not_mem_nil⟩

variable {s t : Settings α} {k k' : String} {a : α}

/-! ## Entries -/

theorem keys_insert (s : Settings α) (k : String) (a : α) :
    (s.insert k a).keys = if k ∈ s.keys then s.keys else s.keys ++ [k] := by
  unfold keys insert
  induction s.entries with
  | nil => rfl
  | cons e rest ih =>
    unfold put
    by_cases he : e.1 = k
    · simp [he]
    · rw [if_neg he, List.map_cons, ih, List.map_cons]
      by_cases hk : k ∈ rest.map (·.1)
      · rw [if_pos hk, if_pos (List.mem_cons_of_mem _ hk)]
      · rw [if_neg hk, if_neg (List.not_mem_cons_of_ne_of_not_mem (Ne.symm he) hk)]
        rfl

theorem mem_keys_iff : k ∈ s.keys ↔ ∃ a, s.find? k = some a := by
  rw [← Option.isSome_iff_exists]
  unfold find? keys
  rw [Option.isSome_map, List.find?_isSome, List.mem_map]
  simp only [beq_iff_eq]

theorem mem_of_find? (h : s.find? k = some a) : (k, a) ∈ s.entries := by
  obtain ⟨e, he, rfl⟩ := Option.map_eq_some_iff.1 h
  have hkey : e.1 = k := by simpa using List.find?_some he
  subst hkey
  exact List.mem_of_find?_eq_some he

theorem find?_erase (s : Settings α) (k k' : String) :
    (s.erase k).find? k' = if k' = k then none else s.find? k' := by
  unfold find? erase
  rw [List.find?_filter]
  split_ifs with h
  · rw [List.find?_eq_none.2, Option.map_none]
    intro e _
    simp [h]
  · congr 2
    funext e
    by_cases he : e.1 = k' <;> simp [he, h]

/-- The entry under the canonical form of a key is removed. -/
theorem delete_eq_ok {key : Value} (h : s.delete key = .ok t) :
    ∃ k, canonicalKey key = .ok k ∧ t = s.erase k := by
  obtain ⟨k, hk, h⟩ := Fault.bind_eq_ok h
  refine ⟨k, hk, ?_⟩
  cases hfind : s.find? k with
  | none =>
    rw [hfind] at h
    exact nomatch h
  | some a =>
    rw [hfind] at h
    exact (Except.ok.inj h).symm

/-- What is found under a canonical key, as an answer. -/
def answer (k : String) : Option α → Except Fault α
  | some a => .ok a
  | none => .error (.entryMissing k)

theorem get_of_canonicalKey {key : Value} (h : canonicalKey key = .ok k) :
    s.get key = answer k (s.find? k) := by
  unfold get
  rw [h]
  rfl

/-- A key addresses the same in two maps if its canonical form does. -/
theorem get_congr_map {key : Value}
    (h : ∀ k, canonicalKey key = .ok k → t.find? k = s.find? k) : t.get key = s.get key := by
  cases hk : canonicalKey key with
  | error e =>
    unfold get
    rw [hk]
    rfl
  | ok k => rw [get_of_canonicalKey hk, get_of_canonicalKey hk, h k hk]

/-- A map that differs from another one under one key only, as all keys see it. -/
theorem get_of_find?_eq {key : Value} (hk : canonicalKey key = .ok k) {x : Option α}
    (h : ∀ k', t.find? k' = if k' = k then x else s.find? k') :
    (∀ key', canonicalKey key' = canonicalKey key → t.get key' = answer k x) ∧
    ∀ key', canonicalKey key' ≠ canonicalKey key → t.get key' = s.get key' := by
  refine ⟨fun key' hkey => ?_, fun key' hkey => get_congr_map fun k' hk' => ?_⟩
  · rw [get_of_canonicalKey (hkey.trans hk), h, if_pos rfl]
  · rw [h, if_neg]
    rintro rfl
    exact hkey (hk'.trans hk.symm)

namespace Canonical

/-- Storing a value under a canonical key. -/
theorem insert (h : s.Canonical) (hk : canonicalKey (.text k) = .ok k) (a : α) :
    (s.insert k a).Canonical := by
  constructor
  all_goals
    rw [keys_insert]
    split_ifs with hmem
  · exact h.nodup
  · exact h.nodup.append (List.nodup_singleton k) (by simpa using hmem)
  · exact h.fixed
  · intro k' hk'
    rcases List.mem_append.1 hk' with hk' | hk'
    · exact h.fixed k' hk'
    · exact List.mem_singleton.1 hk' ▸ hk

theorem erase (h : s.Canonical) (k : String) : (s.erase k).Canonical where
  nodup := (List.filter_sublist.map _).nodup h.nodup
  fixed := fun k' hk' => h.fixed k' ((List.filter_sublist.map _).subset hk')

theorem tail {e : String × α} {rest : List (String × α)}
    (h : Canonical (⟨e :: rest⟩ : Settings α)) : Canonical (⟨rest⟩ : Settings α) where
  nodup := (List.nodup_cons.1 h.nodup).2
  fixed := fun k hk => h.fixed k (List.mem_cons_of_mem _ hk)

theorem find?_eq (h : s.Canonical) {e : String × α} (he : e ∈ s.entries) :
    s.find? e.1 = some e.2 := by
  obtain ⟨a, ha⟩ := mem_keys_iff.1 (List.mem_map_of_mem he)
  have heq : (e.1, a) = e := List.inj_on_of_nodup_map h.nodup (mem_of_find? ha) he rfl
  rw [ha, ← congrArg Prod.snd heq]

theorem get_eq (h : s.Canonical) {e : String × α} (he : e ∈ s.entries) :
    s.get (.text e.1) = .ok e.2 := by
  rw [get_of_canonicalKey (h.fixed e.1 (List.mem_map_of_mem he)), h.find?_eq he]
  rfl

/-- Going through the entries finds each of them. -/
theorem items_eq (h : s.Canonical) : s.items = .ok s.entries := by
  have key : ∀ entries : List (String × α), (∀ e ∈ entries, s.get (.text e.1) = .ok e.2) →
      (entries.mapM fun e => do
        let a ← s.get (.text e.1)
        .ok (e.1, a)) = (.ok entries : Except Fault _) := by
    intro entries hget
    induction entries with
    | nil => rfl
    | cons e rest ih =>
      obtain ⟨he, hrest⟩ := List.forall_mem_cons.1 hget
      rw [List.mapM_cons, he, ih hrest]
      rfl
  exact key s.entries fun e he => h.get_eq he

theorem delete_eq (h : s.Canonical) {e : String × α} (he : e ∈ s.entries) :
    s.delete (.text e.1) = .ok (s.erase e.1) := by
  unfold delete
  rw [h.fixed e.1 (List.mem_map_of_mem he)]
  show (match s.find? e.1 with | some _ => _ | none => _) = _
  rw [h.find?_eq he]

/-- The first entry is found and taken out, and nothing else. -/
theorem popFirst_eq {e : String × α} {rest : List (String × α)}
    (h : Canonical (⟨e :: rest⟩ : Settings α)) :
    (⟨e :: rest⟩ : Settings α).popFirst = .ok (e, ⟨rest⟩) := by
  have he : e ∈ (⟨e :: rest⟩ : Settings α).entries := List.mem_cons_self
  have hrest : (⟨e :: rest⟩ : Settings α).erase e.1 = ⟨rest⟩ := by
    have hnot : e.1 ∉ rest.map (·.1) := (List.nodup_cons.1 h.nodup).1
    unfold Settings.erase
    rw [List.filter_cons_of_neg (by simp), List.filter_eq_self.2]
    intro e' he'
    have hne : e'.1 ≠ e.1 := fun heq => hnot (heq ▸ List.mem_map_of_mem he')
    simpa using hne
  unfold popFirst
  dsimp only
  rw [h.get_eq he, h.delete_eq he, hrest]
  rfl

/-- Clearing takes out all entries. -/
theorem clear_eq (h : s.Canonical) : s.clear = (.ok (), ⟨[]⟩) := by
  have key : ∀ entries : List (String × α), Canonical ⟨entries⟩ →
      clearWith (entries.length + 1) ⟨entries⟩ = (.ok (), (⟨[]⟩ : Settings α)) := by
    intro entries h
    induction entries with
    | nil => rfl
    | cons e rest ih =>
      rw [clearWith, h.popFirst_eq]
      exact ih h.tail
  exact key s.entries h

/-- The same is found in two maps if they are of one size and all entries of the first are in the
second. -/
theorem find?_eq_iff (h : s.Canonical) (ht : t.Canonical) :
    (∀ k, s.find? k = t.find? k) ↔
      s.keys.length = t.keys.length ∧ ∀ e ∈ s.entries, t.find? e.1 = some e.2 := by
  constructor
  · intro heq
    have hperm : s.keys.Perm t.keys := by
      rw [List.perm_ext_iff_of_nodup h.nodup ht.nodup]
      intro k
      rw [mem_keys_iff, mem_keys_iff, heq]
    exact ⟨hperm.length_eq, fun e he => heq e.1 ▸ h.find?_eq he⟩
  · rintro ⟨hlength, hall⟩ k
    have hsub : s.keys ⊆ t.keys := by
      intro k hk
      obtain ⟨a, ha⟩ := mem_keys_iff.1 hk
      exact mem_keys_iff.2 ⟨a, hall _ (mem_of_find? ha)⟩
    have hperm : s.keys.Perm t.keys :=
      (List.subperm_of_subset h.nodup hsub).perm_of_length_le (Nat.le_of_eq hlength.symm)
    cases hs : s.find? k with
    | some a => exact (hall _ (mem_of_find? hs)).symm
    | none =>
      have hnot : k ∉ t.keys := by
        rw [← hperm.mem_iff, mem_keys_iff, hs]
        exact fun ⟨_, ha⟩ => nomatch ha
      cases hfound : t.find? k with
      | none => rfl
      | some a => exact absurd (mem_keys_iff.2 ⟨a, hfound⟩) hnot

/-- Comparing two maps finds all their entries, and tells whether the same is found in both. -/
theorem same_eq [BEq α] [LawfulBEq α] (h : s.Canonical) (ht : t.Canonical) :
    ∃ b, s.same t = .ok b ∧ (b = true ↔ ∀ k, s.find? k = t.find? k) := by
  refine ⟨s.entries.length == t.entries.length && s.entries.all fun e => t.find? e.1 == some e.2,
    ?_, ?_⟩
  · unfold same
    rw [h.items_eq, ht.items_eq]
    rfl
  · rw [h.find?_eq_iff ht, Bool.and_eq_true, beq_iff_eq, List.all_eq_true]
    unfold keys
    simp only [List.length_map, beq_iff_eq]

end Canonical

end Settings

end Bylaws
