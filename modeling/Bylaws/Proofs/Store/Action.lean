import Bylaws.Forest.Edit
import Bylaws.Proofs.Store.Shows

/-!
# Store operations one by one

What each single operation of a store answers and leaves behind. Looking things up leaves the
store as it is; a write is made, or finds a parent missing and changes nothing, or finds a
number that the medium cannot hold.
-/

namespace Bylaws.Store

open Forest

variable {α β γ : Type} {s t : Store}

/-! ## Running -/

theorem bind_ok {x : StoreM α} {f : α → StoreM β} {a : α} (h : x s = (.ok a, t)) :
    (x >>= f) s = f a t := by
  simp only [bind, ExceptT.bind, StateT.bind, ExceptT.mk]
  rw [h]
  rfl

theorem bind_error {x : StoreM α} {f : α → StoreM β} {e : Fault} (h : x s = (.error e, t)) :
    (x >>= f) s = (.error e, t) := by
  simp only [bind, ExceptT.bind, StateT.bind, ExceptT.mk]
  rw [h]
  rfl

/-- What it takes for two operations in a row to succeed. -/
theorem bind_eq_ok {u : Store} {x : StoreM α} {f : α → StoreM β} {b : β}
    (h : (x >>= f) s = (.ok b, u)) : ∃ a t, x s = (.ok a, t) ∧ f a t = (.ok b, u) := by
  rcases hx : x s with ⟨_ | a, t⟩
  · rw [bind_error hx] at h
    exact nomatch h
  · rw [bind_ok hx] at h
    exact ⟨a, t, rfl, h⟩

/-- Two continuations that leave the same behind. -/
theorem snd_bind_congr {x : StoreM α} {g : α → StoreM β} {k : α → StoreM γ}
    (h : ∀ a t, (g a t).2 = (k a t).2) : ((x >>= g) s).2 = ((x >>= k) s).2 := by
  rcases hx : x s with ⟨e | a, t⟩
  · rw [bind_error hx, bind_error hx]
  · rw [bind_ok hx, bind_ok hx, h]

/-- What is only looked up after an operation leaves its store as it is. -/
theorem snd_bind {x : StoreM α} {g : α → StoreM β} (hg : ∀ a t, (g a t).2 = t) :
    ((x >>= g) s).2 = (x s).2 := by
  rcases hx : x s with ⟨e | a, t⟩
  · rw [bind_error hx]
  · rw [bind_ok hx, hg]

theorem get_run : (MonadState.get : StoreM Store) s = (.ok s, s) := rfl

theorem set_run (t : Store) : (set t : StoreM Unit) s = (.ok (), t) := rfl

theorem pure_run (a : α) : (pure a : StoreM α) s = (.ok a, s) := rfl

/-- Looking something up leaves the store as it is. -/
theorem lift_ok {x : Except Fault α} {a : α} (h : x = .ok a) :
    (liftM x : StoreM α) s = (.ok a, s) := by
  rw [h]
  rfl

theorem lift_error {x : Except Fault α} {e : Fault} (h : x = .error e) :
    (liftM x : StoreM α) s = (.error e, s) := by
  rw [h]
  rfl

theorem lift_eq_ok {x : Except Fault α} {a : α} (h : (liftM x : StoreM α) s = (.ok a, t)) :
    x = .ok a ∧ t = s := by
  cases x with
  | error e =>
    rw [lift_error rfl] at h
    exact nomatch h
  | ok b =>
    rw [lift_ok rfl] at h
    cases h
    exact ⟨rfl, rfl⟩

/-! ## Numbers and names -/

theorem isTransferable_of_le {n : Int} (h₁ : -(2 ^ 34) ≤ n) (h₂ : n ≤ 2 ^ 34) :
    isTransferable n = true := by
  have hlow : -(Int.pow 2 127) ≤ n := Int.le_trans (by decide) h₁
  have hhigh : n < Int.pow 2 128 := Int.lt_of_le_of_lt h₂ (by decide)
  unfold isTransferable
  rw [decide_eq_true hlow, decide_eq_true hhigh]
  rfl

theorem fits_iff {n : Int} : fits n = true ↔ -2147483648 ≤ n ∧ n ≤ 2147483647 := by
  simp [fits]

theorem canHold_iff {position : Int} {heading : Option Int} :
    s.canHold position heading = true ↔
      (s.medium = .database → fits position = true ∧ ∀ n, heading = some n → fits n = true) := by
  unfold canHold
  cases s.medium <;> cases heading <;> simp

theorem checkTransfer_of_database {ns : List Int}
    (h : s.medium = .database → ∀ n ∈ ns, isTransferable n = true) :
    s.checkTransfer ns = .ok () := by
  unfold checkTransfer
  split
  · rfl
  · next hm => rw [if_pos (List.all_eq_true.2 (h hm))]

theorem checkTransfer_cases (ns : List Int) :
    s.checkTransfer ns = .ok () ∨ s.checkTransfer ns = .error .notTransferable := by
  unfold checkTransfer
  split
  · exact .inl rfl
  · split
    · exact .inl rfl
    · exact .inr rfl

theorem checkTransfer_of_canHold {position : Int} {heading : Option Int}
    (h : s.canHold position heading = true) :
    s.checkTransfer (position :: heading.toList) = .ok () := by
  apply checkTransfer_of_database
  intro hm n hn
  obtain ⟨h₁, h₂⟩ := canHold_iff.1 h hm
  have hf : fits n = true := by
    rcases List.mem_cons.1 hn with rfl | hn
    · exact h₁
    · exact h₂ n (Option.mem_toList.1 hn)
  rw [fits_iff] at hf
  exact isTransferable_of_le (by omega) (by omega)

theorem checkName_ok {name : Option Int} (h : ∀ id, name = some id → s.contains id = true) :
    s.checkName name = .ok () := by
  cases name with
  | none => rfl
  | some id => exact if_pos (h id rfl)

theorem get_ok {id : Int} {p : Paragraph} (h : s.find? id = some p) : s.get id = .ok p := by
  have hc : s.contains id = true := by unfold contains; rw [h]; rfl
  unfold get
  rw [checkName_ok fun _ he => Option.some.inj he ▸ hc, h]
  rfl

theorem get_error {id : Int} (h : ¬ s.contains id = true) : ∃ e, s.get id = .error e := by
  have hf : s.find? id = none := by simpa [contains] using h
  unfold get
  rw [hf]
  cases s.checkName (some id) with
  | ok => exact ⟨_, rfl⟩
  | error e => exact ⟨e, rfl⟩

theorem checkParent_ok {parent : Option Int}
    (h : ∀ id, parent = some id → s.contains id = true) : s.checkParent parent = .ok () := by
  cases parent with
  | none => rfl
  | some id =>
    obtain ⟨p, hp⟩ := Option.isSome_iff_exists.1 (h id rfl)
    show (do let _ ← s.get id) = _
    rw [get_ok hp]
    rfl

theorem checkParent_error {id : Int} (h : ¬ s.contains id = true) :
    ∃ e, s.checkParent (some id) = .error e := by
  obtain ⟨e, he⟩ := get_error h
  refine ⟨e, ?_⟩
  show (do let _ ← s.get id) = _
  rw [he]
  rfl

/-! ## Writes -/

theorem checkRange_ok {position : Int} {heading : Option Int}
    (h : s.canHold position heading = true) :
    checkRange position heading s = (.ok (), s) := by
  unfold checkRange
  rw [bind_ok get_run, bind_ok (lift_ok (checkTransfer_of_canHold h)), if_pos h]
  rfl

/-- A number that cannot be held spoils the open transaction. -/
theorem checkRange_outOfRange {position : Int} {heading : Option Int}
    (ht : s.checkTransfer (position :: heading.toList) = .ok ())
    (h : ¬ s.canHold position heading = true) :
    checkRange position heading s =
      (.error .outOfStoredRange, { s with spoilt := s.inTransaction }) := by
  unfold checkRange
  rw [bind_ok get_run, bind_ok (lift_ok ht), if_neg h]
  rfl

theorem checkRange_notTransferable {position : Int} {heading : Option Int}
    (ht : s.checkTransfer (position :: heading.toList) = .error .notTransferable) :
    checkRange position heading s = (.error .notTransferable, s) := by
  unfold checkRange
  rw [bind_ok get_run, bind_error (lift_error ht)]

/-- The store with one more paragraph. -/
def added (s : Store) (parent : Option Int) (position : Int) (fields : Fields) : Store :=
  { s with
    rows := s.rows ++ [row s.documentId parent position s.nextId fields]
    nextId := s.nextId + 1 }

@[simp] theorem documentId_added (s : Store) (parent : Option Int) (position : Int)
    (fields : Fields) : (s.added parent position fields).documentId = s.documentId := rfl

theorem create_ok {parent : Option Int} {position : Int} {fields : Fields}
    (hp : ∀ id, parent = some id → s.contains id = true)
    (h : s.canHold position fields.heading = true) :
    create parent position fields s = (.ok s.nextId, s.added parent position fields) := by
  unfold create
  rw [bind_ok get_run, bind_ok (lift_ok (checkParent_ok hp)), bind_ok (checkRange_ok h)]
  rfl

theorem create_error {parent : Option Int} {position : Int} {fields : Fields} {e : Fault}
    (hp : ∀ id, parent = some id → s.contains id = true)
    (h : checkRange position fields.heading s = (.error e, t)) :
    create parent position fields s = (.error e, t) := by
  unfold create
  rw [bind_ok get_run, bind_ok (lift_ok (checkParent_ok hp)), bind_error h]

theorem create_missing {id : Int} (position : Int) (fields : Fields)
    (h : ¬ s.contains id = true) : ∃ e, create (some id) position fields s = (.error e, s) := by
  obtain ⟨e, he⟩ := checkParent_error h
  refine ⟨e, ?_⟩
  unfold create
  rw [bind_ok get_run, bind_error (lift_error he)]

theorem checkRange_eq_ok {position : Int} {heading : Option Int}
    (h : checkRange position heading s = (.ok (), t)) :
    t = s ∧ s.canHold position heading = true := by
  by_cases hc : s.canHold position heading = true
  · rw [checkRange_ok hc] at h
    cases h
    exact ⟨rfl, hc⟩
  · rcases checkTransfer_cases (s := s) (position :: heading.toList) with ht | ht
    · rw [checkRange_outOfRange ht hc] at h
      exact nomatch h
    · rw [checkRange_notTransferable ht] at h
      exact nomatch h

/-- A paragraph is created under the next id, at a place that the medium can hold. -/
theorem create_eq_ok {parent : Option Int} {position : Int} {fields : Fields} {id : Int}
    (h : create parent position fields s = (.ok id, t)) :
    id = s.nextId ∧ t.nextId = s.nextId + 1 ∧ s.canHold position fields.heading = true := by
  unfold create at h
  rw [bind_ok get_run] at h
  obtain ⟨_, _, h₁, h⟩ := bind_eq_ok h
  obtain ⟨-, rfl⟩ := lift_eq_ok h₁
  obtain ⟨_, _, h₂, h⟩ := bind_eq_ok h
  obtain ⟨rfl, hc⟩ := checkRange_eq_ok h₂
  rw [bind_ok (set_run _)] at h
  cases h
  exact ⟨rfl, rfl, hc⟩

theorem move_ok {id : Int} {position : Int} {parent : Option Int} (hc : s.contains id = true)
    (hp : ∀ id, parent = some id → s.contains id = true)
    (h : s.canHold position none = true) :
    move id position parent s =
      (.ok (), { s with rows := s.rows.map (moveRow s.documentId id position parent) }) := by
  obtain ⟨p, hf⟩ := Option.isSome_iff_exists.1 hc
  unfold move
  rw [bind_ok get_run, bind_ok (lift_ok (get_ok hf)), bind_ok (lift_ok (checkParent_ok hp)),
    bind_ok (checkRange_ok h)]
  rfl

theorem move_error {id : Int} {position : Int} {parent : Option Int} {e : Fault}
    (hc : s.contains id = true) (hp : ∀ id, parent = some id → s.contains id = true)
    (h : checkRange position none s = (.error e, t)) :
    move id position parent s = (.error e, t) := by
  obtain ⟨p, hf⟩ := Option.isSome_iff_exists.1 hc
  unfold move
  rw [bind_ok get_run, bind_ok (lift_ok (get_ok hf)), bind_ok (lift_ok (checkParent_ok hp)),
    bind_error h]

theorem paragraphs_added (s : Store) (parent : Option Int) (position : Int) (fields : Fields) :
    (s.added parent position fields).paragraphs =
      s.paragraphs ++ [row s.documentId parent position s.nextId fields] := by
  show (s.rows ++ [_]).filter _ = _
  rw [List.filter_append]
  congr 1
  exact List.filter_cons_of_pos (beq_self_eq_true s.documentId)

/-- Rows can be changed one by one as long as each stays in its document. -/
theorem paragraphs_map {g : Paragraph → Paragraph}
    (hg : ∀ p, (g p).documentId = p.documentId) :
    { s with rows := s.rows.map g }.paragraphs = s.paragraphs.map g := by
  show (s.rows.map g).filter _ = (s.rows.filter _).map g
  rw [List.filter_map]
  congr 2
  funext p
  exact congrArg (· == s.documentId) (hg p)

/-- A new paragraph joins those that a store holds. -/
theorem Holds.added {M : Multiset Paragraph} (h : s.Holds M) {parent : Option Int}
    {position : Int} {fields : Fields} (hc : s.canHold position fields.heading = true) :
    (s.added parent position fields).Holds
      (M + {row s.documentId parent position s.nextId fields}) where
  rows_eq := by
    rw [paragraphs_added, ← Multiset.coe_add, h.rows_eq, Multiset.coe_singleton]
  nodup := by
    rw [Multiset.map_add, Multiset.map_singleton, add_comm, Multiset.singleton_add,
      Multiset.nodup_cons]
    refine ⟨?_, h.nodup⟩
    intro hm
    obtain ⟨p, hp, hid⟩ := Multiset.mem_map.1 hm
    rw [← h.rows_eq, Multiset.mem_coe] at hp
    have hlt := h.issued p (mem_rows_of_mem hp)
    rw [hid] at hlt
    exact absurd hlt (Int.lt_irrefl s.nextId)
  issued := by
    intro p hp
    show p.id < s.nextId + 1
    rcases List.mem_append.1 hp with hp | hp
    · have := h.issued p hp
      omega
    · rw [List.mem_singleton.1 hp]
      show s.nextId < s.nextId + 1
      omega
  held := by
    intro p hp
    rw [paragraphs_added] at hp
    rcases List.mem_append.1 hp with hp | hp
    · exact h.held p hp
    · rw [List.mem_singleton.1 hp]
      exact hc

end Bylaws.Store
