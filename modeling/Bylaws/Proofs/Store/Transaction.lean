import Bylaws.Proofs.Store.Action

/-!
# Transactions

A transaction opens a store, runs, and closes it against the store that it began with
(`guarded_eq`). `Outcome` says in which ways an operation on a store that shows a forest can
end: it is done, it fails, or it meets a number that a database cannot hold and spoils the
transaction around it. Putting an operation into a transaction of its own keeps its outcome
(`Outcome.transaction`).
-/

namespace Bylaws.Store

open Forest

variable {α : Type} {s t u : Store}

/-- The store in which an operation in a transaction begins. -/
def opened (s : Store) : Store :=
  match s.medium with
  | .memory => s
  | .database => if s.inTransaction then s else { s with inTransaction := true }

/-- The store after a transaction that began with `s` and came to `t`. -/
def closed (undone : Bool) (s t : Store) : Store :=
  match s.medium with
  | .memory => if undone then { t with rows := s.rows } else t
  | .database =>
    if s.inTransaction then t
    else
      { t with
        rows := if undone || t.spoilt then s.rows else t.rows
        inTransaction := false
        spoilt := false }

theorem guarded_eq (undone : α → Bool) (body : Store → α × Store) (s : Store) :
    guarded undone body s =
      ((body s.opened).1, closed (undone (body s.opened).1) s (body s.opened).2) := by
  unfold guarded opened closed
  cases s.medium with
  | memory => rfl
  | database => cases s.inTransaction <;> rfl

theorem transaction_eq {body : StoreM α} {r : Except Fault α} (h : body s.opened = (r, t)) :
    transaction body s = (r, closed (isFault r) s t) := by
  show guarded isFault body s = _
  rw [guarded_eq, h]

theorem nextId_closed (undone : Bool) (s t : Store) : (closed undone s t).nextId = t.nextId := by
  unfold closed
  cases s.medium <;> cases s.inTransaction <;> cases undone <;> rfl

/-- The rows after a transaction are those that it came to, or those that it began with. -/
theorem rows_closed (undone : Bool) (s t : Store) :
    (closed undone s t).rows = s.rows ∨ (closed undone s t).rows = t.rows := by
  unfold closed
  cases s.medium <;> cases s.inTransaction <;> cases undone <;> cases t.spoilt <;> simp

theorem spoilt_closed (undone : Bool) (s : Store) (ht : t.spoilt = false) :
    (closed undone s t).spoilt = false := by
  unfold closed
  cases s.medium with
  | memory =>
    cases undone with
    | false => exact ht
    | true => exact ht
  | database =>
    cases s.inTransaction with
    | false => rfl
    | true => exact ht

/-- What it takes for an operation in a transaction to succeed. -/
theorem transaction_eq_ok {body : StoreM α} {a : α} (h : transaction body s = (.ok a, t)) :
    ∃ u, body s.opened = (.ok a, u) ∧ t.nextId = u.nextId := by
  rcases hb : body s.opened with ⟨r, u⟩
  rw [transaction_eq hb] at h
  obtain ⟨rfl, rfl⟩ := Prod.mk.inj h
  exact ⟨u, rfl, nextId_closed _ _ _⟩

/-- A transaction in which nothing is written changes nothing. -/
theorem transaction_unchanged (hs : s.spoilt = false) {body : StoreM α} {r : Except Fault α}
    (h : body s.opened = (r, s.opened)) : transaction body s = (r, s) := by
  rw [transaction_eq h]
  obtain ⟨medium, doc, rows, nextId, inTransaction, spoilt⟩ := s
  obtain rfl : spoilt = false := hs
  cases medium with
  | memory => cases r <;> rfl
  | database =>
    cases inTransaction with
    | true => rfl
    | false => simp [closed, opened]

/-! ## Later stores -/

/-- From a store to a later one the medium, the document and the open transaction stay the same,
and the count of ids does not go back. -/
structure Follows (s t : Store) : Prop where
  medium_eq : t.medium = s.medium
  documentId_eq : t.documentId = s.documentId
  inTransaction_eq : t.inTransaction = s.inTransaction
  nextId_le : s.nextId ≤ t.nextId

theorem Follows.refl (s : Store) : s.Follows s := ⟨rfl, rfl, rfl, Int.le_refl _⟩

theorem Follows.trans (h₁ : s.Follows t) (h₂ : t.Follows u) : s.Follows u where
  medium_eq := h₂.medium_eq.trans h₁.medium_eq
  documentId_eq := h₂.documentId_eq.trans h₁.documentId_eq
  inTransaction_eq := h₂.inTransaction_eq.trans h₁.inTransaction_eq
  nextId_le := h₁.nextId_le.trans h₂.nextId_le

theorem Follows.inTransaction (h : s.Follows t)
    (hi : s.medium = .database → s.inTransaction = true) :
    t.medium = .database → t.inTransaction = true := by
  rw [h.medium_eq, h.inTransaction_eq]
  exact hi

theorem follows_added (parent : Option Int) (position : Int) (fields : Fields) :
    s.Follows (s.added parent position fields) :=
  ⟨rfl, rfl, rfl, by show s.nextId ≤ s.nextId + 1; omega⟩

theorem opened_eq (s : Store) : s.opened = { s with inTransaction := s.opened.inTransaction } := by
  obtain ⟨medium, doc, rows, nextId, inTransaction, spoilt⟩ := s
  cases medium <;> cases inTransaction <;> rfl

theorem medium_opened (s : Store) : s.opened.medium = s.medium := by rw [opened_eq]

theorem documentId_opened (s : Store) : s.opened.documentId = s.documentId := by rw [opened_eq]

theorem rows_opened (s : Store) : s.opened.rows = s.rows := by rw [opened_eq]

theorem nextId_opened (s : Store) : s.opened.nextId = s.nextId := by rw [opened_eq]

theorem spoilt_opened (s : Store) : s.opened.spoilt = s.spoilt := by rw [opened_eq]

theorem inTransaction_opened (h : s.medium = .database) : s.opened.inTransaction = true := by
  unfold opened
  rw [h]
  cases hs : s.inTransaction with
  | true => exact hs
  | false => rfl

/-- An operation in a transaction of its own runs with a transaction open. -/
theorem opened_inTransaction (s : Store) :
    s.opened.medium = .database → s.opened.inTransaction = true := by
  intro hm
  rw [medium_opened] at hm
  exact inTransaction_opened hm

theorem follows_closed (undone : Bool) (h : s.opened.Follows t) :
    s.Follows (closed undone s t) := by
  have hm := h.medium_eq.trans (medium_opened s)
  have hd := h.documentId_eq.trans (documentId_opened s)
  have hn : s.nextId ≤ t.nextId := nextId_opened s ▸ h.nextId_le
  have hi := h.inTransaction_eq
  unfold closed opened at *
  cases hs : s.medium with
  | memory =>
    simp only [hs] at hi
    cases undone
    · exact ⟨hm, hd, hi, hn⟩
    · exact ⟨hm, hd, hi, hn⟩
  | database =>
    simp only [hs] at hi
    cases ht : s.inTransaction with
    | true => exact ⟨hm, hd, by simpa [ht] using hi, hn⟩
    | false => exact ⟨hm, hd, ht.symm, hn⟩

/-! ## Showing a forest across transactions -/

/-- A store shows a forest by its rows; ids that were issued remain issued. -/
theorem Shows.congr {f : Forest} (h : s.Shows f) (hr : t.rows = s.rows)
    (hm : t.medium = s.medium) (hd : t.documentId = s.documentId) (hn : s.nextId ≤ t.nextId) :
    t.Shows f := by
  have hp : t.paragraphs = s.paragraphs := by
    unfold paragraphs
    rw [hr, hd]
  refine ⟨by rw [hp, hd]; exact h.rows_eq, h.nodup, fun p hp' => ?_, fun p hp' => ?_⟩
  · exact lt_of_lt_of_le (h.issued p (hr ▸ hp')) hn
  · rw [hp] at hp'
    have := h.held p hp'
    unfold canHold at *
    rw [hm]
    exact this

theorem Shows.opened {f : Forest} (h : s.Shows f) : s.opened.Shows f :=
  h.congr (rows_opened s) (medium_opened s) (documentId_opened s) (nextId_opened s).ge

/-- A store shows some forest, or is in a transaction that will be undone. -/
def Sound (s : Store) : Prop :=
  if s.spoilt then s.medium = .database ∧ s.inTransaction = true else ∃ f, s.Shows f

theorem Sound.of_shows {f : Forest} (hs : s.spoilt = false) (h : s.Shows f) : s.Sound := by
  unfold Sound
  rw [if_neg (by simp [hs])]
  exact ⟨f, h⟩

theorem Sound.exists_shows (h : s.Sound) (hs : s.spoilt = false) : ∃ f, s.Shows f := by
  unfold Sound at h
  rwa [if_neg (by simp [hs])] at h

theorem Sound.spoilt_eq_false (h : s.Sound)
    (hs : s.medium = .memory ∨ s.inTransaction = false) : s.spoilt = false := by
  unfold Sound at h
  by_contra hne
  rw [if_pos (by simpa using hne)] at h
  rcases hs with hs | hs
  · exact absurd (hs.symm.trans h.1) (by decide)
  · exact absurd (hs.symm.trans h.2) (by decide)

/-- A transaction that began soundly and stayed sound ends soundly. -/
theorem Sound.closed (hs : s.Sound) (h : s.opened.Follows t) (ht : t.Sound) (undone : Bool) :
    (closed undone s t).Sound := by
  have hm := h.medium_eq.trans (medium_opened s)
  have hd := h.documentId_eq.trans (documentId_opened s)
  have hn : s.nextId ≤ t.nextId := nextId_opened s ▸ h.nextId_le
  unfold Store.closed
  split
  next hmem =>
    cases undone with
    | false => exact ht
    | true =>
      obtain ⟨f, hf⟩ := hs.exists_shows (hs.spoilt_eq_false (.inl hmem))
      exact .of_shows (ht.spoilt_eq_false (.inl (hm.trans hmem))) (hf.congr rfl hm hd hn)
  next hdb =>
    split
    · exact ht
    · next hi =>
      have hi' : s.inTransaction = false := by simpa using hi
      by_cases hu : (undone || t.spoilt) = true
      · obtain ⟨f, hf⟩ := hs.exists_shows (hs.spoilt_eq_false (.inr hi'))
        exact .of_shows rfl (hf.congr (if_pos hu) hm hd hn)
      · have hsp : t.spoilt = false := by
          rw [Bool.or_eq_true, not_or] at hu
          simpa using hu.2
        obtain ⟨f, hf⟩ := ht.exists_shows hsp
        exact .of_shows rfl (hf.congr (if_neg hu) rfl rfl (Int.le_refl _))

/-! ## Outcomes -/

/-- How an operation on a store may end: done, with an answer and the forest that the store
shows then; failed, with the forest that it shows then; or, for want of room, with a number out
of range and the open transaction spoilt. -/
inductive Outcome (s : Store) (done : α → Forest → Prop) (failed : Forest → Prop)
    (noRoom : Prop) : Except Fault α × Store → Prop where
  | done {a : α} {t : Store} {f : Forest} :
      s.Follows t → t.spoilt = false → t.Shows f → done a f →
      Outcome s done failed noRoom (.ok a, t)
  | failed {e : Fault} {t : Store} {f : Forest} :
      s.Follows t → t.spoilt = false → t.Shows f → failed f →
      Outcome s done failed noRoom (.error e, t)
  | spoilt {t : Store} :
      s.Follows t → t.spoilt = true → t.medium = .database → t.inTransaction = true → noRoom →
      Outcome s done failed noRoom (.error .outOfStoredRange, t)

namespace Outcome

variable {done : α → Forest → Prop} {failed : Forest → Prop} {noRoom : Prop}
  {x : Except Fault α × Store}

theorem follows (h : Outcome s done failed noRoom x) : s.Follows x.2 := by
  cases h <;> assumption

theorem sound (h : Outcome s done failed noRoom x) : x.2.Sound := by
  cases h with
  | done _ hs hf _ => exact .of_shows hs hf
  | failed _ hs hf _ => exact .of_shows hs hf
  | spoilt _ hs hm hi _ =>
    unfold Sound
    rw [if_pos hs]
    exact ⟨hm, hi⟩

/-- A transaction is spoilt only where a number out of range is answered. -/
theorem spoilt_eq_false (h : Outcome s done failed noRoom x)
    (hx : x.1 ≠ .error .outOfStoredRange) : x.2.spoilt = false := by
  cases h with
  | done _ hs _ _ => exact hs
  | failed _ hs _ _ => exact hs
  | spoilt => exact absurd rfl hx

theorem of_follows (hfol : s.Follows t) (h : Outcome t done failed noRoom x) :
    Outcome s done failed noRoom x := by
  cases h with
  | done h₁ h₂ h₃ h₄ => exact .done (hfol.trans h₁) h₂ h₃ h₄
  | failed h₁ h₂ h₃ h₄ => exact .failed (hfol.trans h₁) h₂ h₃ h₄
  | spoilt h₁ h₂ h₃ h₄ h₅ => exact .spoilt (hfol.trans h₁) h₂ h₃ h₄ h₅

/-- With room, an operation that fails only for want of room is done. -/
theorem exists_done (h : Outcome s done failed noRoom x) (hf : ∀ f, failed f → noRoom)
    (room : ¬ noRoom) :
    ∃ a t f, x = (.ok a, t) ∧ s.Follows t ∧ t.spoilt = false ∧ t.Shows f ∧ done a f := by
  cases h with
  | done h₁ h₂ h₃ h₄ => exact ⟨_, _, _, rfl, h₁, h₂, h₃, h₄⟩
  | failed _ _ _ h => exact absurd (hf _ h) room
  | spoilt _ _ _ _ h => exact absurd h room

theorem mono {done' : α → Forest → Prop} {failed' : Forest → Prop} {noRoom' : Prop}
    (h : Outcome s done failed noRoom x) (hd : ∀ a f, done a f → done' a f)
    (hf : ∀ f, failed f → failed' f) (hr : noRoom → noRoom') :
    Outcome s done' failed' noRoom' x := by
  cases h with
  | done h₁ h₂ h₃ h₄ => exact .done h₁ h₂ h₃ (hd _ _ h₄)
  | failed h₁ h₂ h₃ h₄ => exact .failed h₁ h₂ h₃ (hf _ h₄)
  | spoilt h₁ h₂ h₃ h₄ h₅ => exact .spoilt h₁ h₂ h₃ h₄ (hr h₅)

/-- One operation after another; a failure of either is a failure of both. -/
theorem bind {β : Type} {done' : β → Forest → Prop} {body : StoreM α} {next : α → StoreM β}
    (h : Outcome s done failed noRoom (body s))
    (hnext : ∀ a t f, s.Follows t → t.spoilt = false → t.Shows f → done a f →
      Outcome t done' failed noRoom (next a t)) :
    Outcome s done' failed noRoom ((body >>= next) s) := by
  rcases hb : body s with ⟨r, t⟩
  rw [hb] at h
  cases h with
  | done h₁ h₂ h₃ h₄ =>
    rw [bind_ok hb]
    exact (hnext _ _ _ h₁ h₂ h₃ h₄).of_follows h₁
  | failed h₁ h₂ h₃ h₄ =>
    rw [bind_error hb]
    exact .failed h₁ h₂ h₃ h₄
  | spoilt h₁ h₂ h₃ h₄ h₅ =>
    rw [bind_error hb]
    exact .spoilt h₁ h₂ h₃ h₄ h₅

/-- Something is looked up first; if that fails, nothing is written. -/
theorem lift_bind {β : Type} {x : Except Fault β} {next : β → StoreM α} {f : Forest}
    (hs : s.spoilt = false) (h : s.Shows f) (hfail : failed f)
    (hnext : ∀ b, x = .ok b → Outcome s done failed noRoom (next b s)) :
    Outcome s done failed noRoom ((liftM x >>= next) s) := by
  cases x with
  | error e =>
    rw [bind_error (lift_error rfl)]
    exact .failed (.refl s) hs h hfail
  | ok b =>
    rw [bind_ok (lift_ok rfl)]
    exact hnext b rfl

/-- An operation in a transaction of its own ends as it does by itself, and a failure may take
the store back to where it began. -/
theorem transaction {f : Forest} (hf : s.Shows f)
    (hfail : ∀ g, failed g → failed f) (hroom : noRoom → failed f) {body : StoreM α}
    (h : Outcome s.opened done failed noRoom (body s.opened)) :
    Outcome s done failed noRoom (transaction body s) := by
  rcases hb : body s.opened with ⟨r, t⟩
  rw [hb] at h
  rw [transaction_eq hb]
  have hfol := h.follows
  have hm := hfol.medium_eq.trans (medium_opened s)
  have hd := hfol.documentId_eq.trans (documentId_opened s)
  have hn : s.nextId ≤ t.nextId := nextId_opened s ▸ hfol.nextId_le
  have hclosed := follows_closed (isFault r) hfol
  -- Where the transaction is undone the store shows what it showed at first.
  have back : ∀ undone, (closed undone s t).rows = s.rows → (closed undone s t).Shows f := by
    intro undone hr
    have hc := follows_closed undone hfol
    exact hf.congr hr hc.medium_eq hc.documentId_eq hc.nextId_le
  cases h with
  | done _ h₂ h₃ h₄ =>
    refine .done hclosed ?_ (h₃.congr ?_ ?_ ?_ ?_) h₄ <;> unfold closed <;>
      cases s.medium <;> cases s.inTransaction <;> simp [isFault, h₂]
  | @failed e _ _ _ h₂ h₃ h₄ =>
    by_cases hin : s.medium = .database ∧ s.inTransaction = true
    · have he : closed (isFault (.error e : Except Fault α)) s t = t := by
        unfold closed
        rw [hin.1]
        exact if_pos hin.2
      rw [he] at hclosed ⊢
      exact .failed hclosed h₂ h₃ h₄
    · refine .failed hclosed ?_ (back _ ?_) (hfail _ h₄) <;> unfold closed <;>
        cases hmed : s.medium <;> cases hint : s.inTransaction <;> simp_all [isFault]
  | @spoilt _ _ h₂ h₃ h₄ h₅ =>
    by_cases hin : s.inTransaction = true
    · have he : closed (isFault (.error .outOfStoredRange : Except Fault α)) s t = t := by
        unfold closed
        rw [← hm, h₃]
        exact if_pos hin
      rw [he] at hclosed ⊢
      exact .spoilt hclosed h₂ h₃ h₄ h₅
    · refine .failed hclosed ?_ (back _ ?_) (hroom h₅) <;> unfold closed <;>
        rw [← hm, h₃] <;> simp [hin, isFault]

end Outcome

end Bylaws.Store
