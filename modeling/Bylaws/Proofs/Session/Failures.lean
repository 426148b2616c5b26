import Bylaws.Proofs.DocumentOrder.Splices
import Bylaws.Proofs.Session.Built

/-!
# Edits that fail

An edit that fails leaves the paragraphs as they were, if it is asked for in memory or outside
of all transactions; a caller who goes on and commits the transactions around it finds nothing
of it (`Session.failed_edit_traceless`). Within a transaction of a database there is nothing
smaller than that transaction to undo. There a number out of range undoes all of it, and a
failed import leaves behind what it has made before (`Session.failed_import_leaves_trace`); the
other edits fail before they write, or with a number out of range.
-/

namespace Bylaws

open Forest

namespace Store

variable {α β : Type} {s t : Store}

/-! ## What is undone -/

/-- If an operation fails, it leaves the rows as they were. -/
def Undone (x : StoreM α) (s : Store) : Prop := isFault (x s).1 = true → (x s).2.rows = s.rows

namespace Undone

theorem lift_bind {x : Except Fault α} {f : α → StoreM β} (h : ∀ a, Undone (f a) s) :
    Undone (liftM x >>= f) s := by
  cases x with
  | error e =>
    intro _
    rw [bind_error (lift_error rfl)]
  | ok a =>
    unfold Undone
    rw [bind_ok (lift_ok rfl)]
    exact h a

theorem bind_pure {x : StoreM α} (h : Undone x s) (g : α → β) :
    Undone (x >>= fun a => pure (g a)) s := by
  unfold Undone
  rw [snd_bind fun _ _ => rfl]
  intro hf
  apply h
  rcases hx : x s with ⟨e | a, t⟩
  · rfl
  · rw [bind_ok hx] at hf
    exact nomatch hf

/-- In memory, and outside of all transactions, a fault takes a transaction back. -/
theorem transaction (h : s.medium = .memory ∨ s.inTransaction = false) (x : StoreM α) :
    Undone (Store.transaction x) s := by
  have hx : Store.transaction x s =
      ((x s.opened).1, closed (isFault (x s.opened).1) s (x s.opened).2) := guarded_eq isFault x s
  intro hf
  rw [hx] at hf ⊢
  dsimp only at hf ⊢
  rw [hf]
  unfold closed
  cases hm : s.medium with
  | memory => rfl
  | database =>
    have hi : s.inTransaction = false := h.resolve_left (by simp [hm])
    simp [hi]

end Undone

/-- In memory, and outside of all transactions, an edit that fails leaves the rows as they were. -/
theorem run_undone (h : s.medium = .memory ∨ s.inTransaction = false) (e : Edit) :
    Undone e.run s := by
  cases e with
  | append fields parent => exact .lift_bind fun _ => (Undone.transaction h _).bind_pure _
  | insert fields before after =>
    exact .lift_bind fun _ => .lift_bind fun _ => (Undone.transaction h _).bind_pure _
  | indent id => exact (Undone.transaction h _).bind_pure _
  | outdent id => exact (Undone.transaction h _).bind_pure _
  | delete id => exact (Undone.transaction h _).bind_pure _
  | importOutline outline parent => exact .transaction h _

/-! ## What a failure leaves -/

/-- The lines of one forest are those of another with more put in at one place. -/
def Widens (f f' : Forest) : Prop :=
  ∃ before new after, f.lines 1 = before ++ after ∧ f'.lines 1 = before ++ new ++ after

theorem Widens.refl (f : Forest) : Widens f f :=
  ⟨f.lines 1, [], [], (List.append_nil _).symm, by simp⟩

/-- An import that fails has put in lines at the end of one place. -/
theorem Partly.widens {C : Hole} {g f' : Forest} (h : Partly C g f') :
    Widens (C.plug g) f' := by
  obtain ⟨g', _, _, rfl, new, hl, -⟩ := h
  refine ⟨C.before ++ g.lines C.depth, new, C.after, Hole.lines_plug C g, ?_⟩
  rw [Hole.lines_plug, hl]
  simp only [List.append_assoc]

/-- What is left of a forest by an edit that fails is the forest itself, but for what an import
puts in. -/
theorem widens_of_leaves {e : Edit} {f f' : Forest} (h : e.Leaves f f') : Widens f f' := by
  cases e with
  | importOutline outline parent =>
    rcases h with rfl | ⟨C, g, -, rfl, hpartly⟩
    · exact .refl f'
    · exact hpartly.widens
  | _ =>
    obtain rfl : f' = f := h
    exact .refl f'

theorem eq_of_leaves {e : Edit} {f f' : Forest}
    (he : ∀ outline parent, e ≠ .importOutline outline parent) (h : e.Leaves f f') : f' = f := by
  cases e with
  | importOutline outline parent => exact absurd rfl (he outline parent)
  | _ => exact h

/-! ## Transactions around a store -/

/-- A later store of the same document and medium that holds the same rows under the same count
of ids. -/
structure Same (s t : Store) : Prop where
  rows_eq : t.rows = s.rows
  medium_eq : t.medium = s.medium
  documentId_eq : t.documentId = s.documentId
  nextId_eq : t.nextId = s.nextId

theorem Same.refl (s : Store) : s.Same s := ⟨rfl, rfl, rfl, rfl⟩

theorem Same.trans {u : Store} (h : s.Same t) (h' : t.Same u) : s.Same u where
  rows_eq := h'.rows_eq.trans h.rows_eq
  medium_eq := h'.medium_eq.trans h.medium_eq
  documentId_eq := h'.documentId_eq.trans h.documentId_eq
  nextId_eq := h'.nextId_eq.trans h.nextId_eq

theorem Same.shows {f : Forest} (h : s.Same t) (hs : s.Shows f) : t.Shows f :=
  hs.congr h.rows_eq h.medium_eq h.documentId_eq h.nextId_eq.ge

theorem paragraphs_eq_of_rows (hr : t.rows = s.rows) (hd : t.documentId = s.documentId) :
    t.paragraphs = s.paragraphs := by
  unfold paragraphs
  rw [hr, hd]

theorem Shows.perm {f : Forest} (ht : t.Shows f) (hs : s.Shows f)
    (hd : t.documentId = s.documentId) : t.paragraphs.Perm s.paragraphs := by
  have h := ht.rows_eq
  rw [hd, ← hs.rows_eq] at h
  exact Multiset.coe_eq_coe.1 h

/-- What was done in a transaction stays when it is committed, unless a database has to undo it. -/
theorem same_closed {b : Store} (h : b.opened.Follows t)
    (ht : t.medium = .memory ∨ t.spoilt = false) : t.Same (closed false b t) := by
  have hm : b.medium = t.medium := (h.medium_eq.trans (medium_opened b)).symm
  unfold closed
  rw [hm]
  cases hmed : t.medium with
  | memory => exact .refl t
  | database =>
    have hs : t.spoilt = false := ht.resolve_left (by simp [hmed])
    cases b.inTransaction with
    | true => exact .refl t
    | false => exact ⟨by simp [hs], hmed.symm, rfl, rfl⟩

/-- The stores in which the open transactions began, the innermost first: each was one on the
way to what was done in it, and the outermost began outside of all transactions. -/
def Stacked : Store → List Store → Prop
  | s, [] => s.inTransaction = false
  | s, b :: before => b.opened.Follows s ∧ Stacked b before

theorem Stacked.follows {before : List Store} (h : Stacked s before) (hfol : s.Follows t) :
    Stacked t before := by
  cases before with
  | nil => exact hfol.inTransaction_eq.trans h
  | cons b rest => exact ⟨h.1.trans hfol, h.2⟩

end Store

namespace Session

variable {σ : Session}

theorem stacked_step (h : Store.Stacked σ.store σ.before) (e : Event) :
    Store.Stacked (σ.step e).store (σ.step e).before := by
  cases e with
  | edit e =>
    unfold step
    cases σ.store.spoilt with
    | true => exact h
    | false => exact h.follows ((Store.run_built e).follows σ.store)
  | start => exact ⟨.refl _, h⟩
  | finish abort =>
    obtain ⟨store, before, answered, written⟩ := σ
    cases before with
    | nil => exact h
    | cons b before => exact h.2.follows (Store.follows_closed abort h.1)

theorem stacked_run (h : Store.Stacked σ.store σ.before) (events : List Event) :
    Store.Stacked (σ.run events).store (σ.run events).before := by
  induction events generalizing σ with
  | nil => exact h
  | cons e events ih => exact ih (stacked_step h e)

/-- So many transactions are committed, from the innermost outward. -/
def commits (n : Nat) : List Event := List.replicate n (.finish false)

/-- The store stays as it is when the transactions around it are committed: nothing is undone in
memory, outside of all transactions, or while no number was out of range. -/
theorem same_commits (h : Store.Stacked σ.store σ.before)
    (hc : σ.store.medium = .memory ∨ σ.before = [] ∨ σ.store.spoilt = false) (n : Nat) :
    σ.store.Same (σ.run (commits n)).store := by
  induction n generalizing σ with
  | zero => exact .refl _
  | succ n ih =>
    show σ.store.Same ((σ.step (.finish false)).run (commits n)).store
    have hstep := stacked_step h (.finish false)
    obtain ⟨store, before, answered, written⟩ := σ
    cases before with
    | nil => exact ih h hc
    | cons b before =>
      have hc' : store.medium = .memory ∨ store.spoilt = false := by simpa using hc
      have hsame := Store.same_closed h.1 hc'
      refine hsame.trans (ih hstep ?_)
      rcases hc' with hm | hs
      · exact .inl (hsame.medium_eq.trans hm)
      · exact .inr (.inr (Store.spoilt_closed false b hs))

/-- A spoilt transaction of a database is undone as a whole: once the outermost transaction ends
the rows are those that it began with. -/
theorem rows_of_spoilt (h : Store.Stacked σ.store σ.before) (hd : σ.store.medium = .database)
    (hs : σ.store.spoilt = true) {b : Store} (hb : σ.before.getLast? = some b) {n : Nat}
    (hn : σ.before.length ≤ n) : (σ.run (commits n)).store.rows = b.rows := by
  induction n generalizing σ with
  | zero =>
    rw [List.length_eq_zero_iff.1 (Nat.le_zero.1 hn)] at hb
    exact nomatch hb
  | succ n ih =>
    show ((σ.step (.finish false)).run (commits n)).store.rows = b.rows
    have hstep := stacked_step h (.finish false)
    obtain ⟨store, before, answered, written⟩ := σ
    cases before with
    | nil => exact nomatch hb
    | cons c before =>
      have hm : c.medium = .database :=
        ((h.1.medium_eq.trans (Store.medium_opened c)).symm).trans hd
      cases before with
      | nil =>
        obtain rfl : c = b := Option.some.inj hb
        have hi : c.inTransaction = false := h.2
        have hrows : (Store.closed false c store).rows = c.rows := by
          simp [Store.closed, hm, hi, show store.spoilt = true from hs]
        exact (same_commits hstep (.inr (.inl rfl)) n).rows_eq.trans hrows
      | cons d before =>
        have hi : c.inTransaction = true := by
          rw [h.2.1.inTransaction_eq]
          exact Store.inTransaction_opened
            ((h.2.1.medium_eq.trans (Store.medium_opened d)).symm.trans hm)
        have hclosed : Store.closed false c store = store := by
          simp [Store.closed, hm, hi]
        exact ih hstep (by rw [← hd]; exact congrArg Store.medium hclosed)
          (by rw [← hs]; exact congrArg Store.spoilt hclosed) hb (Nat.le_of_succ_le_succ hn)

/-! ## Edits that fail -/

/-- An edit fails in a session. In a transaction that is spoilt all edits do. -/
def Fails (σ : Session) (e : Edit) : Prop :=
  σ.store.spoilt = false → Store.isFault (e.run σ.store).1 = true

/-- However many of the transactions around an edit are committed after it, the paragraphs are
those from before it. -/
def Traceless (σ : Session) (e : Edit) : Prop :=
  ∀ n, ((σ.step (.edit e)).run (commits n)).store.paragraphs.Perm σ.store.paragraphs

/-- After an edit and any number of commits the document reads as before, but for new lines at
one place. -/
def LeavesStretch (σ : Session) (e : Edit) : Prop :=
  ∃ before new after, σ.store.Reads (before ++ after) ∧
    ∀ n, ((σ.step (.edit e)).run (commits n)).store.Reads (before ++ new ++ after)

theorem store_step {e : Edit} (hs : σ.store.spoilt = false) :
    (σ.step (.edit e)).store = (e.run σ.store).2 := by
  unfold step
  dsimp only
  rw [if_neg (by simp [hs])]
  rfl

theorem before_step (σ : Session) (e : Edit) : (σ.step (.edit e)).before = σ.before := by
  unfold step
  dsimp only
  split
  · rfl
  · rfl

/-- Where a fault takes a transaction back, nothing is left of an edit that fails. -/
theorem traceless_of_undone (h : Store.Stacked σ.store σ.before)
    (hc : σ.store.medium = .memory ∨ σ.before = []) {e : Edit} (hf : σ.Fails e) :
    σ.Traceless e := by
  intro n
  have hfol : σ.store.Follows (σ.step (.edit e)).store ∧
      (σ.step (.edit e)).store.rows = σ.store.rows := by
    cases hs : σ.store.spoilt with
    | true =>
      have hstep : σ.step (.edit e) = σ := if_pos hs
      rw [hstep]
      exact ⟨.refl _, rfl⟩
    | false =>
      have hi : σ.store.medium = .memory ∨ σ.store.inTransaction = false :=
        hc.imp id fun hb => by rwa [hb] at h
      rw [store_step hs]
      exact ⟨(Store.run_built e).follows σ.store, Store.run_undone hi e (hf hs)⟩
  have hsame := same_commits (stacked_step h (.edit e))
    (hc.elim (fun hm => .inl (hfol.1.medium_eq.trans hm))
      fun hb => .inr (.inl ((before_step σ e).trans hb))) n
  rw [Store.paragraphs_eq_of_rows (hsame.rows_eq.trans hfol.2)
    (hsame.documentId_eq.trans hfol.1.documentId_eq)]

/-- An edit that fails outside of a spoilt transaction, and spoils none, adds at most lines at
one place. Only an import adds any. -/
theorem leavesStretch_of_fails (h : Store.Stacked σ.store σ.before)
    (hk : σ.store.Sound) {e : Edit} (hh : e.Holdable σ.store.medium) (hf : σ.Fails e)
    (hs : (σ.step (.edit e)).store.spoilt = false) :
    ((∀ outline parent, e ≠ .importOutline outline parent) → σ.Traceless e) ∧
      σ.LeavesStretch e := by
  have hσ : σ.store.spoilt = false := by
    cases hc : σ.store.spoilt with
    | false => rfl
    | true =>
      have hstep : σ.step (.edit e) = σ := if_pos hc
      rw [hstep] at hs
      exact absurd (hc.symm.trans hs) (by decide)
  obtain ⟨f, hshows⟩ := hk.exists_shows hσ
  have hsame := same_commits (stacked_step h (.edit e)) (.inr (.inr hs))
  have ho := Store.edit_turns hσ hshows hh
  have hfail := hf hσ
  rw [store_step hσ] at hs hsame
  generalize hx : e.run σ.store = x at ho hfail hs hsame
  cases ho with
  | done => exact nomatch hfail
  | spoilt _ h₂ => exact absurd (h₂.symm.trans hs) (by decide)
  | @failed _ t f' h₁ _ h₃ h₄ =>
    obtain ⟨before, new, after, hl, hl'⟩ := Store.widens_of_leaves h₄
    refine ⟨fun he n => ?_, before, new, after, hl ▸ hshows.reads, fun n => ?_⟩
    · obtain rfl := Store.eq_of_leaves he h₄
      exact ((hsame n).shows h₃).perm hshows
        ((hsame n).documentId_eq.trans h₁.documentId_eq)
    · have hr := ((hsame n).shows h₃).reads
      rwa [hl'] at hr

/-- What an edit that fails leaves behind once transactions around it are committed. In memory,
and outside of all transactions, it is nothing. Within a transaction of a database a number out
of range undoes all of that transaction; every other fault leaves nothing, but for an import,
which may leave new lines at one place. The database has to be able to hold the headings that
are inserted. -/
theorem failed_edit_traceless {s : Store} (hs : s.Fresh) (events : List Event) (e : Edit)
    (h : (run { store := s } events).Fails e) :
    let σ := run { store := s } events
    let τ := σ.step (.edit e)
    (σ.store.medium = .memory ∨ σ.before = [] → σ.Traceless e) ∧
      (τ.store.spoilt = true → σ.store.medium = .database →
        ∀ outermost, σ.before.getLast? = some outermost → ∀ n, σ.before.length ≤ n →
          (τ.run (commits n)).store.rows = outermost.rows) ∧
      (τ.store.spoilt = false → (∀ ev ∈ events, ev.Holdable s.medium) → e.Holdable s.medium →
        ((∀ outline parent, e ≠ .importOutline outline parent) → σ.Traceless e) ∧
          σ.LeavesStretch e) := by
  intro σ τ
  have hstacked : Store.Stacked σ.store σ.before := 
    stacked_run (σ := { store := s }) hs.inTransaction_eq events
  refine ⟨fun hc => traceless_of_undone hstacked hc h, fun hspoilt hd b hb n hn => ?_,
    fun hspoilt hev he => ?_⟩
  · have hbefore : τ.before = σ.before := before_step σ e
    have hm : τ.store.medium = σ.store.medium := by
      show (σ.step (.edit e)).store.medium = _
      cases hc : σ.store.spoilt with
      | true => exact congrArg (fun υ : Session => υ.store.medium) (if_pos hc)
      | false =>
        rw [store_step hc]
        exact ((Store.run_built e).follows σ.store).medium_eq
    exact rows_of_spoilt (stacked_step hstacked (.edit e)) (hm.trans hd) hspoilt
      (hbefore ▸ hb) (hbefore ▸ hn)
  · obtain ⟨hsound, hlater⟩ := sound_run (hs.sound fun _ _ => True) (makes_true _ events) hev
    exact leavesStretch_of_fails hstacked hsound.kept.1 (hlater.medium_eq ▸ he) h hspoilt

/-- Two paragraphs of which the second is written in a transaction. -/
def openAppend : List Event :=
  [.edit (.append { body := "a" } none), .start, .edit (.append { body := "b" } none)]

theorem failed_edit_traceless_delete :
    (run { store := { medium := .database, documentId := "d" } } openAppend).Fails (.delete 9) ∧
      (run { store := { medium := .database, documentId := "d" } } openAppend).Traceless
        (.delete 9) := by
  have hf : (run { store := { medium := .database, documentId := "d" } } openAppend).Fails
      (.delete 9) := by
    unfold Fails
    decide
  obtain ⟨-, -, h⟩ := failed_edit_traceless (Store.fresh_empty .database "d") openAppend
    (.delete 9) hf
  exact ⟨hf, (h rfl (by simp [openAppend, Event.Holdable, Edit.Holdable]) trivial).1 nofun⟩

/-- A text, and after it a list whose first element is a list. -/
def jumping : Value := .list [.text "a", .list [.list [.text "x"]]]

/-- An import that fails in a transaction of a database leaves what it has made before. -/
theorem failed_import_leaves_trace :
    ¬ ∀ (s : Store) (events : List Event) (e : Edit), s.Fresh →
      (run { store := s } events).Fails e → (run { store := s } events).Traceless e := by
  intro h
  have hf : (run { store := { medium := .database, documentId := "d" } } [.start]).Fails
      (.importOutline jumping none) := by
    unfold Fails
    decide
  have hperm := (h _ _ _ (Store.fresh_empty .database "d") hf 1).length_eq
  revert hperm
  decide

end Session

end Bylaws
