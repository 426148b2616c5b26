import Bylaws.Proofs.Settings.Canonical

/-!
# Calls of a map

Whatever is done to a map of choices or of insertions, its keys stay distinct and canonical: each
single call keeps this (`Settings.Canonical.perform`), and so does any row of calls
(`Settings.Reachable.canonical`). To every call, keys with the same canonical form are the same
(`Settings.Call.Alike.perform_eq`). `Settings.maps_canonical` puts together what follows for both
kinds of maps.
-/

namespace Bylaws.Settings

variable {α : Type} {s t : Settings α}

/-! ## Calls -/

/-- What may be asked of a map, and what may be done to it. -/
inductive Call (α : Type) where
  | set (key value : Value)
  | get (key : Value)
  | delete (key : Value)
  | contains (key : Value)
  | getD (key default : Value)
  | pop (key : Value) (default : Option Value)
  | popFirst
  | setDefault (key default : Value)
  | update (v : Value)
  | clear
  | items
  | same (t : Settings α)

/-- An entry as an answer. -/
def entryValue [Setting α] (e : String × α) : Value := .tuple [.text e.1, Setting.toValue e.2]

/-- An answer and the map after it; a map that is not changed by a fault. -/
def changing (s : Settings α) (r : Except Fault (Value × Settings α)) :
    Except Fault Value × Settings α :=
  match r with
  | .ok (v, t) => (.ok v, t)
  | .error e => (.error e, s)

/-- The answer to a call and the map after it. -/
def Call.perform [Setting α] [BEq α] (s : Settings α) : Call α → Except Fault Value × Settings α
  | .set key value => s.changing ((s.set key value).map fun t => (.null, t))
  | .get key => ((s.get key).map Setting.toValue, s)
  | .delete key => s.changing ((s.delete key).map fun t => (.null, t))
  | .contains key => ((s.contains key).map .bool, s)
  | .getD key default => (s.getD key default, s)
  | .pop key default => s.changing (s.pop key default)
  | .popFirst => s.changing (s.popFirst.map fun (e, t) => (entryValue e, t))
  | .setDefault key default => s.changing (s.setDefault key default)
  | .update v => ((s.update v).1.map fun _ => .null, (s.update v).2)
  | .clear => (s.clear.1.map fun _ => .null, s.clear.2)
  | .items => (s.items.map fun es => .list (es.map entryValue), s)
  | .same t => ((s.same t).map .bool, s)

/-- A map that has been loaded, after any calls. -/
inductive Reachable [Setting α] [BEq α] : Settings α → Prop where
  | load {v : Value} {s : Settings α} : ofValue v = .ok s → Reachable s
  | call {s : Settings α} (c : Call α) : Reachable s → Reachable (c.perform s).2

/-- The pairs that a value is made of, each of them unless it is no pair. -/
def pairsOf (v : Value) : Except Fault (List (Except Fault (Value × Value))) :=
  match v.opened with
  | .dict entries => .ok (entries.map .ok)
  | v =>
    match v.members? with
    | some members => .ok (members.map pair)
    | none => .error (.notIterable v.fullKind)

/-! ## Keys with the same canonical form -/

section Keys

variable {key key' : Value}

theorem get_congr (s : Settings α) (h : canonicalKey key = canonicalKey key') :
    s.get key = s.get key' := by
  unfold get
  rw [h]

theorem delete_congr (s : Settings α) (h : canonicalKey key = canonicalKey key') :
    s.delete key = s.delete key' := by
  unfold delete
  rw [h]

theorem contains_congr (s : Settings α) (h : canonicalKey key = canonicalKey key') :
    s.contains key = s.contains key' := by
  unfold contains
  rw [h]

variable [Setting α]

theorem set_congr (s : Settings α) (h : canonicalKey key = canonicalKey key') (value : Value) :
    s.set key value = s.set key' value := by
  unfold set
  rw [h]

theorem getD_congr (s : Settings α) (h : canonicalKey key = canonicalKey key') (default : Value) :
    s.getD key default = s.getD key' default := by
  unfold getD
  rw [s.get_congr h]

theorem pop_congr (s : Settings α) (h : canonicalKey key = canonicalKey key')
    (default : Option Value) : s.pop key default = s.pop key' default := by
  unfold pop
  rw [s.get_congr h, s.delete_congr h]

theorem setDefault_congr (s : Settings α) (h : canonicalKey key = canonicalKey key')
    (default : Value) : s.setDefault key default = s.setDefault key' default := by
  unfold setDefault
  rw [s.get_congr h, s.set_congr h]

end Keys

/-! ## What is kept -/

namespace Canonical

theorem popFirst (h : s.Canonical) {e : String × α} (hp : s.popFirst = .ok (e, t)) :
    t.Canonical := by
  obtain ⟨entries⟩ := s
  cases entries with
  | nil => exact nomatch hp
  | cons e rest =>
    rw [h.popFirst_eq] at hp
    cases hp
    exact h.tail

theorem delete (h : s.Canonical) {key : Value} (hd : s.delete key = .ok t) : t.Canonical := by
  obtain ⟨k, -, rfl⟩ := delete_eq_ok hd
  exact h.erase k

theorem changing (h : s.Canonical) {r : Except Fault (Value × Settings α)}
    (hr : ∀ v t, r = .ok (v, t) → t.Canonical) : (s.changing r).2.Canonical := by
  unfold Settings.changing
  split
  · next v t => exact hr v t rfl
  · exact h

theorem changing_map {β : Type} (h : s.Canonical) {r : Except Fault β}
    {f : β → Value × Settings α} (hr : ∀ b, r = .ok b → (f b).2.Canonical) :
    (s.changing (r.map f)).2.Canonical := by
  cases r with
  | error e => exact h
  | ok b => exact hr b rfl

end Canonical

section Calls

variable [Setting α]

theorem update_eq (s : Settings α) (v : Value) :
    s.update v = match pairsOf v with
      | .ok pairs => s.setAll pairs
      | .error e => (.error e, s) := by
  unfold update pairsOf
  cases v.opened with
  | dict entries => rfl
  | _ =>
    dsimp only
    cases Value.members? _ <;> rfl

/-- Two pairs to be stored have the same value, and keys with the same canonical form. -/
inductive PairAlike : Except Fault (Value × Value) → Except Fault (Value × Value) → Prop where
  | pair {key key' : Value} (h : canonicalKey key = canonicalKey key') (value : Value) :
      PairAlike (.ok (key, value)) (.ok (key', value))
  | fault (e : Fault) : PairAlike (.error e) (.error e)

/-- Two calls are the same but for keys, which have the same canonical form. -/
inductive Call.Alike : Call α → Call α → Prop where
  | refl (c : Call α) : Alike c c
  | set {key key' : Value} (h : canonicalKey key = canonicalKey key') (value : Value) :
      Alike (.set key value) (.set key' value)
  | get {key key' : Value} (h : canonicalKey key = canonicalKey key') : Alike (.get key) (.get key')
  | delete {key key' : Value} (h : canonicalKey key = canonicalKey key') :
      Alike (.delete key) (.delete key')
  | contains {key key' : Value} (h : canonicalKey key = canonicalKey key') :
      Alike (.contains key) (.contains key')
  | getD {key key' : Value} (h : canonicalKey key = canonicalKey key') (default : Value) :
      Alike (.getD key default) (.getD key' default)
  | pop {key key' : Value} (h : canonicalKey key = canonicalKey key') (default : Option Value) :
      Alike (.pop key default) (.pop key' default)
  | setDefault {key key' : Value} (h : canonicalKey key = canonicalKey key') (default : Value) :
      Alike (.setDefault key default) (.setDefault key' default)
  | update {v v' : Value} {pairs pairs' : List (Except Fault (Value × Value))}
      (hv : pairsOf v = .ok pairs) (hv' : pairsOf v' = .ok pairs')
      (h : List.Forall₂ PairAlike pairs pairs') : Alike (.update v) (.update v')

theorem setAll_congr {pairs pairs' : List (Except Fault (Value × Value))}
    (h : List.Forall₂ PairAlike pairs pairs') (s : Settings α) :
    s.setAll pairs = s.setAll pairs' := by
  induction h generalizing s with
  | nil => rfl
  | cons hpair _ ih =>
    cases hpair with
    | pair hkey value =>
      unfold setAll
      rw [s.set_congr hkey value]
      split
      · rfl
      · exact ih _
    | fault e => rfl

/-- Keys with the same canonical form are the same to every call. -/
theorem Call.Alike.perform_eq [BEq α] {c c' : Call α} (h : c.Alike c') (s : Settings α) :
    c.perform s = c'.perform s := by
  cases h with
  | refl => rfl
  | set h value => rw [perform, perform, s.set_congr h]
  | get h => rw [perform, perform, s.get_congr h]
  | delete h => rw [perform, perform, s.delete_congr h]
  | contains h => rw [perform, perform, s.contains_congr h]
  | getD h default => rw [perform, perform, s.getD_congr h]
  | pop h default => rw [perform, perform, s.pop_congr h]
  | setDefault h default => rw [perform, perform, s.setDefault_congr h]
  | update hv hv' h =>
    rw [perform, perform, update_eq, update_eq, hv, hv']
    dsimp only
    rw [setAll_congr h]

namespace Canonical

theorem set (h : s.Canonical) {key value : Value} (hs : s.set key value = .ok t) :
    t.Canonical := by
  obtain ⟨a, -, k, hk, rfl⟩ := set_eq_ok hs
  exact h.insert (canonicalKey_text hk) a

theorem pop (h : s.Canonical) {key v : Value} {default : Option Value}
    (hp : s.pop key default = .ok (v, t)) : t.Canonical := by
  unfold Settings.pop at hp
  split at hp
  · obtain ⟨u, hd, heq⟩ := Fault.map_eq_ok hp
    cases heq
    exact h.delete hd
  · cases hp
    exact h
  · exact nomatch hp

theorem setDefault (h : s.Canonical) {key v default : Value}
    (hd : s.setDefault key default = .ok (v, t)) : t.Canonical := by
  unfold Settings.setDefault at hd
  split at hd
  · cases hd
    exact h
  · obtain ⟨u, hs, heq⟩ := Fault.map_eq_ok hd
    cases heq
    exact h.set hs
  · exact nomatch hd

theorem setAll (h : s.Canonical) (pairs : List (Except Fault (Value × Value))) :
    (s.setAll pairs).2.Canonical := by
  induction pairs generalizing s with
  | nil => exact h
  | cons p rest ih =>
    cases p with
    | error e => exact h
    | ok p =>
      unfold Settings.setAll
      cases hs : s.set p.1 p.2 with
      | error e => exact h
      | ok t => exact ih (h.set hs)

theorem update (h : s.Canonical) (v : Value) : (s.update v).2.Canonical := by
  rw [update_eq]
  split
  · exact h.setAll _
  · exact h

theorem perform [BEq α] (h : s.Canonical) (c : Call α) : (c.perform s).2.Canonical := by
  cases c with
  | set key value => exact h.changing_map fun t ht => h.set ht
  | delete key => exact h.changing_map fun t ht => h.delete ht
  | pop key default => exact h.changing fun v t ht => h.pop ht
  | popFirst => exact h.changing_map fun (_, t) ht => h.popFirst ht
  | setDefault key default => exact h.changing fun v t ht => h.setDefault ht
  | update v => exact h.update v
  | clear =>
    show s.clear.2.Canonical
    rw [h.clear_eq]
    exact canonical_empty
  | get | contains | getD | items | same => exact h

end Canonical

/-- A map that is loaded holds what is stored in an empty one. -/
theorem canonical_ofValue {v : Value} (h : ofValue v = .ok s) : s.Canonical := by
  unfold ofValue at h
  split_ifs at h
  · split at h
    · next entries _ =>
      have hall := (canonical_empty : Canonical (⟨[]⟩ : Settings α)).setAll (entries.map .ok)
      rcases hset : (⟨[]⟩ : Settings α).setAll (entries.map .ok) with ⟨e | _, u⟩
      · rw [hset] at h
        exact nomatch h
      · rw [hset] at h hall
        cases h
        exact hall
    · exact nomatch h
  · cases h
    exact canonical_empty

theorem Reachable.canonical [BEq α] (h : s.Reachable) : s.Canonical := by
  induction h with
  | load h => exact canonical_ofValue h
  | call c _ ih => exact ih.perform c

/-! ## Finite maps -/

/-- A map is a finite map from canonical keys, and nothing that is done to it misses a stored key. -/
structure Lawful [BEq α] (s : Settings α) : Prop where
  canonical : s.Canonical
  alike : ∀ c c' : Call α, c.Alike c' → c.perform s = c'.perform s
  /-- What a value is stored as is found under its key, and all else as before. -/
  stored : ∀ key value t, s.set key value = .ok t → ∃ a, Setting.ofValue value = .ok a ∧
    (∀ key', canonicalKey key' = canonicalKey key → t.get key' = .ok a) ∧
    ∀ key', canonicalKey key' ≠ canonicalKey key → t.get key' = s.get key'
  /-- Nothing is found under a key that is removed, and all else as before. -/
  removed : ∀ key t, s.delete key = .ok t →
    (∀ key', canonicalKey key' = canonicalKey key → ∃ k, t.get key' = .error (.entryMissing k)) ∧
    ∀ key', canonicalKey key' ≠ canonicalKey key → t.get key' = s.get key'
  /-- A value that is refused is refused under any key, and nothing changes. -/
  refused : ∀ key value e, (Setting.ofValue value : Except Fault α) = .error e →
    (Call.set key value).perform s = (.error e, s)
  items_eq : s.items = .ok s.entries
  same_eq : ∀ t : Settings α, t.Reachable →
    ∃ b, s.same t = .ok b ∧ (b = true ↔ ∀ k, s.find? k = t.find? k)
  popFirst_eq : s.popFirst = match s.entries with
    | [] => .error .noEntries
    | e :: rest => .ok (e, ⟨rest⟩)
  clear_eq : s.clear = (.ok (), ⟨[]⟩)

theorem Reachable.lawful [BEq α] [LawfulBEq α] (h : s.Reachable) : s.Lawful where
  canonical := h.canonical
  alike := fun _ _ hc => hc.perform_eq s
  stored := by
    intro key value t hset
    obtain ⟨a, ha, k, hk, rfl⟩ := set_eq_ok hset
    exact ⟨a, ha, get_of_find?_eq hk fun k' => find?_insert s k k' a⟩
  removed := by
    intro key t hdelete
    obtain ⟨k, hk, rfl⟩ := delete_eq_ok hdelete
    obtain ⟨hgone, hother⟩ := get_of_find?_eq hk fun k' => find?_erase s k k'
    exact ⟨fun key' hkey => ⟨k, hgone key' hkey⟩, hother⟩
  refused := by
    intro key value e he
    have hset : s.set key value = .error e := by
      unfold Settings.set
      rw [he]
      rfl
    rw [Call.perform, hset]
    rfl
  items_eq := h.canonical.items_eq
  same_eq := fun _ ht => h.canonical.same_eq ht.canonical
  popFirst_eq := by
    have hs := h.canonical
    obtain ⟨entries⟩ := s
    cases entries with
    | nil => rfl
    | cons e rest => exact hs.popFirst_eq
  clear_eq := h.canonical.clear_eq

end Calls

/-- Whatever has been done to a map of choices or of insertions, it is a finite map from canonical
keys. Choices are truth values, and nothing else is stored as one; insertions are texts. -/
theorem maps_canonical :
    (∀ s : Choices, s.Reachable → s.Lawful ∧ (∀ e ∈ s.entries, ∃ b, Setting.toValue e.2 = .bool b) ∧
      ∀ key value, (∀ b, value ≠ .bool b) →
        ∃ e, (Call.set key value).perform s = (.error e, s)) ∧
    ∀ s : Insertions, s.Reachable → s.Lawful ∧
      ∀ e ∈ s.entries, ∃ text, Setting.toValue e.2 = .text text := by
  constructor
  · intro s hs
    refine ⟨hs.lawful, fun e _ => ⟨e.2, rfl⟩, fun key value hvalue => ?_⟩
    cases value with
    | bool b => exact absurd rfl (hvalue b)
    | _ => exact ⟨_, hs.lawful.refused key _ _ rfl⟩
  · exact fun s hs => ⟨hs.lawful, fun e _ => ⟨e.2, rfl⟩⟩

/-- A choice under a key with capitals and blanks at its ends, and an insertion under a key whose
small letter takes two characters. -/
theorem maps_canonical_spaced :
    ∃ s : Choices, s = ((Call.set (.text " Free_Cake\t") (.bool true)).perform ⟨[]⟩).2 ∧
      s.keys = ["free_cake"] ∧ s.Lawful ∧
      ∃ t : Insertions, t = ((Call.setDefault (.text "İ") .null).perform ⟨[]⟩).2 ∧
        t.keys = ["i̇"] ∧ t.Lawful := by
  refine ⟨_, rfl, by decide +kernel, (maps_canonical.1 _ ?_).1, _, rfl, by decide +kernel,
    (maps_canonical.2 _ ?_).1⟩
  · exact .call _ (.load (show ofValue .null = .ok _ from rfl))
  · exact .call _ (.load (show ofValue .null = .ok _ from rfl))

end Bylaws.Settings
