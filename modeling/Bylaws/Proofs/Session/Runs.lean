import Bylaws.Proofs.Session.Edits
import Bylaws.Proofs.WellFormed

/-!
# Runs of edits

A session is any run of edits on a store, with transactions begun and finished around them in
any nesting. Every event keeps the invariant (`Session.sound_step`), for the store and for all
stores that open transactions may go back to, so whole runs keep it (`Session.sound_run`), and
the store of a document is well formed at all times (`Session.run_wellFormed`).
-/

namespace Bylaws

open Forest

namespace Store

variable {s t : Store} {f : Forest} {P : Int → Fields → Prop}

/-! ## Stores in a session -/

/-- A store is sound, and all its paragraphs have a property. -/
def Kept (P : Int → Fields → Prop) (s : Store) : Prop :=
  s.Sound ∧ (s.spoilt = false → ∀ p ∈ s.paragraphs, P p.id p.fields)

theorem Outcome.kept {e : Edit} {noRoom : Prop} {x : Except Fault (List Int) × Store}
    (h : Outcome s (fun ids f' => (e.Makes P ids → f'.All P) ∧ s.Answers ids f')
      (fun f' => e.Makes P [] → f'.All P) noRoom x)
    (hm : e.Makes P (x.1.toOption.getD [])) : Kept P x.2 := by
  refine ⟨h.sound, ?_⟩
  intro hs
  cases h with
  | done _ _ h₃ h₄ => exact h₃.all_iff.1 (h₄.1 hm)
  | failed _ _ h₃ h₄ => exact h₃.all_iff.1 (h₄ hm)
  | spoilt _ h₂ => exact absurd (h₂.symm.trans hs) (by decide)

/-- The ids answered lie between the counts of ids before and after. -/
theorem Outcome.answers {done : List Int → Forest → Prop} {failed : Forest → Prop}
    {noRoom : Prop} {x : Except Fault (List Int) × Store}
    (h : Outcome s (fun ids f' => done ids f' ∧ s.Answers ids f') failed noRoom x) :
    (x.1.toOption.getD []).Pairwise (· < ·) ∧
      ∀ id ∈ x.1.toOption.getD [], s.nextId ≤ id ∧ id < x.2.nextId := by
  cases h with
  | done _ _ h₃ h₄ =>
    obtain ⟨-, hp, hmem⟩ := h₄
    exact ⟨hp, fun id hid => ⟨(hmem id hid).1, h₃.lt_nextId (hmem id hid).2⟩⟩
  | failed => exact ⟨.nil, fun _ hid => absurd hid List.not_mem_nil⟩
  | spoilt => exact ⟨.nil, fun _ hid => absurd hid List.not_mem_nil⟩

theorem paragraphs_opened (s : Store) : s.opened.paragraphs = s.paragraphs := by
  rw [opened_eq]
  rfl

theorem Kept.opened (h : s.Kept P) : s.opened.Kept P := by
  constructor
  · obtain ⟨h, -⟩ := h
    unfold Sound at h ⊢
    rw [spoilt_opened]
    split at h
    next hs =>
      rw [if_pos hs]
      exact ⟨(medium_opened s).trans h.1, inTransaction_opened h.1⟩
    next hs =>
      rw [if_neg hs]
      obtain ⟨f, hf⟩ := h
      exact ⟨f, hf.opened⟩
  · intro hs
    rw [paragraphs_opened]
    exact h.2 (spoilt_opened s ▸ hs)

/-- A transaction ends with the rows that it began with or with those that it came to. -/
theorem closed_rows (hs : s.Sound) (undone : Bool) (t : Store) :
    (closed undone s t).rows = s.rows ∧ s.spoilt = false ∨
      (closed undone s t).rows = t.rows ∧
        ((closed undone s t).spoilt = false → t.spoilt = false) := by
  unfold Store.closed
  split
  next hm =>
    cases undone with
    | false => exact .inr ⟨rfl, id⟩
    | true => exact .inl ⟨rfl, hs.spoilt_eq_false (.inl hm)⟩
  next hm =>
    by_cases hi : s.inTransaction = true
    · rw [if_pos hi]
      exact .inr ⟨rfl, id⟩
    · rw [if_neg hi]
      by_cases hu : (undone || t.spoilt) = true
      · exact .inl ⟨if_pos hu, hs.spoilt_eq_false (.inr (by simpa using hi))⟩
      · refine .inr ⟨if_neg hu, ?_⟩
        intro _
        rw [Bool.or_eq_true, not_or] at hu
        simpa using hu.2

theorem Kept.closed (hs : s.Kept P) (h : s.opened.Follows t) (ht : t.Kept P) (undone : Bool) :
    (closed undone s t).Kept P := by
  refine ⟨hs.1.closed h ht.1 undone, ?_⟩
  intro hc
  have hd := (follows_closed undone h).documentId_eq
  have hp : ∀ u : Store, (Store.closed undone s t).rows = u.rows → u.documentId = s.documentId →
      (Store.closed undone s t).paragraphs = u.paragraphs := by
    intro u hr hdoc
    unfold paragraphs
    rw [hr, hd, hdoc]
  rcases closed_rows hs.1 undone t with ⟨hr, hsp⟩ | ⟨hr, hsp⟩
  · rw [hp s hr rfl]
    exact hs.2 hsp
  · rw [hp t hr (h.documentId_eq.trans (documentId_opened s))]
    exact ht.2 (hsp hc)

/-- Each open transaction began with a store that it may go back to. -/
def Nested (P : Int → Fields → Prop) : Store → List Store → Prop
  | _, [] => True
  | t, b :: rest => b.opened.Follows t ∧ b.Kept P ∧ Nested P b rest

theorem Nested.follows {u : Store} {before : List Store} (h : Nested P t before)
    (hfol : t.Follows u) : Nested P u before := by
  cases before with
  | nil => trivial
  | cons b rest => exact ⟨h.1.trans hfol, h.2⟩

end Store

/-! ## Sessions -/

/-- A run in progress. -/
structure Session where
  store : Store
  /-- The stores in which the open transactions began, the innermost first. -/
  before : List Store := []
  /-- The ids answered so far. -/
  answered : List Int := []
  /-- Those of them answered by edits that are given the fields, so by no import. -/
  written : List Int := []

/-- What happens in a session. -/
inductive Event where
  | edit (e : Edit)
  | start
  | finish (abort : Bool)

def Event.Holdable (medium : Medium) : Event → Prop
  | edit e => e.Holdable medium
  | _ => True

namespace Session

/-- One event. A transaction that is spoilt takes no more edits and can only be finished. -/
def step (σ : Session) : Event → Session
  | .edit e =>
    if σ.store.spoilt then σ
    else
      let (r, store) := e.run σ.store
      let ids := r.toOption.getD []
      { σ with
        store
        answered := σ.answered ++ ids
        written := σ.written ++ if e.writes then ids else [] }
  | .start => { σ with store := σ.store.opened, before := σ.store :: σ.before }
  | .finish abort =>
    match σ.before with
    | [] => σ
    | b :: before => { σ with store := Store.closed abort b σ.store, before }

def run (σ : Session) (events : List Event) : Session := events.foldl step σ

/-- Whether all paragraphs that an event makes in a session have a property. -/
def StepMakes (P : Int → Fields → Prop) (σ : Session) : Event → Prop
  | .edit e =>
    σ.store.spoilt = false → e.Makes P ((e.run σ.store).1.toOption.getD [])
  | _ => True

/-- Whether all paragraphs that a run makes have a property. -/
def Makes (P : Int → Fields → Prop) : Session → List Event → Prop
  | _, [] => True
  | σ, e :: events => σ.StepMakes P e ∧ Makes P (σ.step e) events

/-- Whether an event meets no number that a database cannot hold. -/
def StepInRange (σ : Session) : Event → Prop
  | .edit e => σ.store.spoilt = false → (e.run σ.store).1 ≠ .error .outOfStoredRange
  | _ => True

/-- Whether a run meets no number that a database cannot hold. -/
def InRange : Session → List Event → Prop
  | _, [] => True
  | σ, e :: events => σ.StepInRange e ∧ InRange (σ.step e) events

/-- The invariant of a session. -/
structure Sound (P : Int → Fields → Prop) (σ : Session) : Prop where
  kept : σ.store.Kept P
  nested : Store.Nested P σ.store σ.before
  increasing : σ.answered.Pairwise (· < ·)
  issued : ∀ id ∈ σ.answered, id < σ.store.nextId

/-- From a session to a later one no id is answered that was issued before. -/
structure Later (σ τ : Session) : Prop where
  medium_eq : τ.store.medium = σ.store.medium
  documentId_eq : τ.store.documentId = σ.store.documentId
  nextId_le : σ.store.nextId ≤ τ.store.nextId
  answered : ∃ new, τ.answered = σ.answered ++ new ∧ ∀ id ∈ new, σ.store.nextId ≤ id

variable {σ τ υ : Session} {P : Int → Fields → Prop}

theorem Later.refl (σ : Session) : σ.Later σ :=
  ⟨rfl, rfl, Int.le_refl _, [], (List.append_nil _).symm, fun _ h => absurd h List.not_mem_nil⟩

theorem Later.trans (h₁ : σ.Later τ) (h₂ : τ.Later υ) : σ.Later υ := by
  obtain ⟨new, ha, hn⟩ := h₁.answered
  obtain ⟨new', ha', hn'⟩ := h₂.answered
  refine ⟨h₂.medium_eq.trans h₁.medium_eq, h₂.documentId_eq.trans h₁.documentId_eq,
    h₁.nextId_le.trans h₂.nextId_le, new ++ new', ?_, ?_⟩
  · rw [ha', ha, List.append_assoc]
  · intro id hid
    rcases List.mem_append.1 hid with hid | hid
    · exact hn id hid
    · exact h₁.nextId_le.trans (hn' id hid)

theorem edit_step (h : σ.Sound P) {e : Edit} (hm : σ.StepMakes P (.edit e))
    (hh : e.Holdable σ.store.medium) :
    (σ.step (.edit e)).Sound P ∧ σ.Later (σ.step (.edit e)) := by
  unfold step
  cases hs : σ.store.spoilt with
  | true => exact ⟨h, .refl σ⟩
  | false =>
    obtain ⟨f, hf⟩ := h.kept.1.exists_shows hs
    have ho := Store.edit_outcome hs hf (hf.all_iff.2 (h.kept.2 hs)) hh
    have hkept := ho.kept (hm hs)
    generalize hx : e.run σ.store = x at ho hkept
    have hfol := ho.follows
    obtain ⟨hpair, hnew⟩ := ho.answers
    obtain ⟨r, t⟩ := x
    dsimp only
    rw [hx, if_neg (by decide)]
    refine ⟨⟨hkept, h.nested.follows hfol, ?_, ?_⟩, hfol.medium_eq, hfol.documentId_eq,
      hfol.nextId_le, r.toOption.getD [], rfl, fun id hid => (hnew id hid).1⟩
    · refine List.pairwise_append.2 ⟨h.increasing, hpair, ?_⟩
      intro a ha b hb
      exact lt_of_lt_of_le (h.issued a ha) (hnew b hb).1
    · intro id hid
      rcases List.mem_append.1 hid with hid | hid
      · exact lt_of_lt_of_le (h.issued id hid) hfol.nextId_le
      · exact (hnew id hid).2

theorem start_step (h : σ.Sound P) : (σ.step .start).Sound P ∧ σ.Later (σ.step .start) := by
  have hn := Store.nextId_opened σ.store
  refine ⟨⟨h.kept.opened, ⟨.refl _, h.kept, h.nested⟩, h.increasing, ?_⟩,
    Store.medium_opened σ.store, Store.documentId_opened σ.store, hn.ge, [],
    (List.append_nil _).symm, fun _ hid => absurd hid List.not_mem_nil⟩
  intro id hid
  exact lt_of_lt_of_le (h.issued id hid) hn.ge

theorem finish_step (h : σ.Sound P) (abort : Bool) :
    (σ.step (.finish abort)).Sound P ∧ σ.Later (σ.step (.finish abort)) := by
  obtain ⟨store, before, answered⟩ := σ
  cases before with
  | nil => exact ⟨h, .refl _⟩
  | cons b before =>
    obtain ⟨hkept, ⟨hfol, hb, hnest⟩, hinc, hissued⟩ := h
    have hn := Store.nextId_closed abort b store
    have hfol' := Store.follows_closed abort hfol
    refine ⟨⟨hb.closed hfol hkept abort, hnest.follows hfol', hinc, ?_⟩, ?_, ?_, hn.ge, [],
      (List.append_nil _).symm, fun _ hid => absurd hid List.not_mem_nil⟩
    · intro id hid
      exact lt_of_lt_of_le (hissued id hid) hn.ge
    · exact hfol'.medium_eq.trans (hfol.medium_eq.trans (Store.medium_opened b)).symm
    · exact hfol'.documentId_eq.trans (hfol.documentId_eq.trans (Store.documentId_opened b)).symm

theorem makes_true (σ : Session) (events : List Event) : Makes (fun _ _ => True) σ events := by
  induction events generalizing σ with
  | nil => trivial
  | cons e events ih =>
    refine ⟨?_, ih (σ.step e)⟩
    rcases e with e | _ | _
    · intro _
      cases e <;> simp [Edit.Makes]
    · trivial
    · trivial

/-- All paragraphs that an edit makes have fields that pass the check. -/
theorem makes_checked_of_run (e : Edit) (s : Store) :
    e.Makes (fun _ fields => fields.check = .ok fields) ((e.run s).1.toOption.getD []) := by
  have hchecked : ∀ {fields : Fields} {x : Fields → StoreM (List Int)},
      ∀ id ∈ ((liftM fields.check >>= x) s).1.toOption.getD [], fields.check = .ok fields := by
    intro fields x id hid
    cases hc : fields.check with
    | error f =>
      rw [Store.bind_error (Store.lift_error hc)] at hid
      exact absurd hid List.not_mem_nil
    | ok fields' => rw [Fields.check_eq_ok hc]
  cases e with
  | append fields parent => exact hchecked
  | insert fields before after =>
    intro id hid
    cases hn : Store.Neighbour.of before after with
    | error f =>
      rw [show (Edit.insert fields before after).run s = _ from
        Store.bind_error (Store.lift_error hn)] at hid
      exact absurd hid List.not_mem_nil
    | ok neighbour =>
      rw [show (Edit.insert fields before after).run s = _ from
        Store.bind_ok (Store.lift_ok hn)] at hid
      exact hchecked id hid
  | importOutline outline parent => exact fun _ _ _ ht => (Fields.ofText_eq_ok ht).2
  | _ => trivial

theorem makes_checked (σ : Session) (events : List Event) :
    Makes (fun _ fields => fields.check = .ok fields) σ events := by
  induction events generalizing σ with
  | nil => trivial
  | cons e events ih =>
    refine ⟨?_, ih (σ.step e)⟩
    rcases e with e | _ | _
    · exact fun _ => makes_checked_of_run e σ.store
    · trivial
    · trivial

/-- One event keeps the invariant. -/
theorem sound_step (h : σ.Sound P) {e : Event} (hm : σ.StepMakes P e)
    (hh : e.Holdable σ.store.medium) : (σ.step e).Sound P ∧ σ.Later (σ.step e) := by
  cases e with
  | edit e => exact edit_step h hm hh
  | start => exact start_step h
  | finish abort => exact finish_step h abort

/-- A whole run keeps the invariant. -/
theorem sound_run {events : List Event} (h : σ.Sound P) (hm : Makes P σ events)
    (hh : ∀ e ∈ events, e.Holdable σ.store.medium) :
    (σ.run events).Sound P ∧ σ.Later (σ.run events) := by
  induction events generalizing σ with
  | nil => exact ⟨h, .refl σ⟩
  | cons e events ih =>
    obtain ⟨h₁, h₂⟩ := sound_step h hm.1 (hh e List.mem_cons_self)
    obtain ⟨h₃, h₄⟩ := ih h₁ hm.2
      (fun e' he' => h₂.medium_eq ▸ hh e' (List.mem_cons_of_mem _ he'))
    exact ⟨h₃, h₂.trans h₄⟩

/-! ## Numbers in range -/

theorem spoilt_step (h : σ.Sound P) (hs : σ.store.spoilt = false) {e : Event}
    (hr : σ.StepInRange e) (hh : e.Holdable σ.store.medium) :
    (σ.step e).store.spoilt = false := by
  cases e with
  | edit e =>
    obtain ⟨f, hf⟩ := h.kept.1.exists_shows hs
    have ho := Store.edit_outcome hs hf (hf.all_iff.2 (h.kept.2 hs)) hh
    unfold step
    dsimp only
    rw [if_neg (by simp [hs])]
    exact ho.spoilt_eq_false (hr hs)
  | start => exact (Store.spoilt_opened σ.store).trans hs
  | finish abort =>
    obtain ⟨store, before, answered⟩ := σ
    cases before with
    | nil => exact hs
    | cons b before => exact Store.spoilt_closed abort b hs

/-- While all numbers are in range, no transaction is spoilt. -/
theorem spoilt_run {events : List Event} (h : σ.Sound fun _ _ => True)
    (hs : σ.store.spoilt = false) (hr : InRange σ events)
    (hh : ∀ e ∈ events, e.Holdable σ.store.medium) : (σ.run events).store.spoilt = false := by
  induction events generalizing σ with
  | nil => exact hs
  | cons e events ih =>
    have he := hh e List.mem_cons_self
    obtain ⟨h₁, h₂⟩ := sound_step h (makes_true σ (e :: events)).1 he
    exact ih h₁ (spoilt_step h hs hr.1 he) hr.2
      (fun e' he' => h₂.medium_eq ▸ hh e' (List.mem_cons_of_mem _ he'))

/-! ## Where fields come from -/

theorem written_subset_step (σ : Session) (e : Event) : σ.written ⊆ (σ.step e).written := by
  intro id hid
  rcases e with e | _ | abort
  · unfold step
    dsimp only
    split
    · exact hid
    · exact List.mem_append_left _ hid
  · exact hid
  · obtain ⟨store, before, answered, written⟩ := σ
    cases before with
    | nil => exact hid
    | cons b before => exact hid

theorem written_subset_run (σ : Session) (events : List Event) :
    σ.written ⊆ (σ.run events).written := by
  induction events generalizing σ with
  | nil => exact fun _ hid => hid
  | cons e events ih => exact List.Subset.trans (written_subset_step σ e) (ih (σ.step e))

/-- An edit that is given the fields is recorded with the ids that it answers. -/
theorem mem_written_step {e : Edit} (hs : σ.store.spoilt = false) (he : e.writes = true) {id : Int}
    (hid : id ∈ (e.run σ.store).1.toOption.getD []) : id ∈ (σ.step (.edit e)).written := by
  unfold step
  dsimp only
  rw [if_neg (by simp [hs])]
  show id ∈ σ.written ++ if e.writes then (e.run σ.store).1.toOption.getD [] else []
  rw [if_pos he]
  exact List.mem_append_right _ hid

/-- A run makes paragraphs that have been written by a caller or come from an import. -/
theorem makes_of_written {events : List Event}
    (hw : ∀ id ∈ (σ.run events).written, ∀ fields, P id fields)
    (hi : ∀ id text fields, Fields.ofText text = .ok fields → P id fields) :
    Makes P σ events := by
  induction events generalizing σ with
  | nil => trivial
  | cons e events ih =>
    refine ⟨?_, ih hw⟩
    have hrun := written_subset_run (σ.step e) events
    rcases e with e | _ | abort
    · intro hs
      cases e with
      | append fields parent =>
        exact fun id hid => hw id (hrun (mem_written_step hs rfl hid)) fields
      | insert fields before after =>
        exact fun id hid => hw id (hrun (mem_written_step hs rfl hid)) fields
      | indent id => trivial
      | outdent id => trivial
      | delete id => trivial
      | importOutline outline parent => exact hi
    · trivial
    · trivial

/-- A transaction of a session is one of the store: between its two ends the session goes on by
itself, and the store ends as a guarded operation on it does. -/
theorem run_transaction (σ : Session) (events : List Event) (abort : Bool)
    (hb : ((σ.step .start).run events).before = σ.store :: σ.before) :
    (σ.run (.start :: events ++ [.finish abort])).store =
      (Store.guarded (fun _ : Unit => abort)
        (fun s => ((), (Session.run { σ with store := s, before := σ.store :: σ.before }
          events).store)) σ.store).2 := by
  rw [Store.guarded_eq]
  show ((((σ.step .start).run (events ++ [.finish abort]))).store) = _
  unfold run at hb ⊢
  rw [List.foldl_append]
  generalize hτ : List.foldl step (σ.step .start) events = τ at hb ⊢
  obtain ⟨store, before, answered⟩ := τ
  obtain rfl : before = σ.store :: σ.before := hb
  show Store.closed abort σ.store store = Store.closed abort σ.store (List.foldl step
    (σ.step .start) events).store
  rw [hτ]

end Session

namespace Store

/-- A store for a document of which nothing has been stored. -/
structure Fresh (s : Store) : Prop where
  paragraphs_eq : s.paragraphs = []
  issued : ∀ p ∈ s.rows, p.id < s.nextId
  inTransaction_eq : s.inTransaction = false
  spoilt_eq : s.spoilt = false

theorem fresh_empty (medium : Medium) (doc : String) :
    Fresh { medium, documentId := doc } where
  paragraphs_eq := rfl
  issued := fun _ h => absurd h List.not_mem_nil
  inTransaction_eq := rfl
  spoilt_eq := rfl

theorem Fresh.shows {s : Store} (h : s.Fresh) : s.Shows nil where
  rows_eq := by
    rw [h.paragraphs_eq]
    rfl
  nodup := .nil
  issued := h.issued
  held := by
    rw [h.paragraphs_eq]
    exact fun _ hp => absurd hp List.not_mem_nil

/-- A session on a fresh store begins with the invariant. -/
theorem Fresh.sound {s : Store} (h : s.Fresh) (P : Int → Fields → Prop) :
    Session.Sound P { store := s } where
  kept := by
    refine ⟨.of_shows h.spoilt_eq h.shows, ?_⟩
    intro _
    rw [h.paragraphs_eq]
    exact fun _ hp => absurd hp List.not_mem_nil
  nested := trivial
  increasing := .nil
  issued := fun _ hid => absurd hid List.not_mem_nil

/-- A stored paragraph that no caller gave the fields of has those of an import text. -/
theorem Fresh.exists_text {s : Store} (h : s.Fresh) {events : List Event}
    (hh : ∀ e ∈ events, e.Holdable s.medium) {p : Paragraph}
    (hs : (Session.run { store := s } events).store.spoilt = false)
    (hp : p ∈ (Session.run { store := s } events).store.paragraphs)
    (hid : p.id ∉ (Session.run { store := s } events).written) :
    ∃ text, Fields.ofText text = .ok p.fields := by
  have hmakes : Session.Makes (fun id fields =>
      id ∈ (Session.run { store := s } events).written ∨ ∃ text, Fields.ofText text = .ok fields)
      { store := s } events :=
    Session.makes_of_written (fun id hid _ => .inl hid) fun _ text _ ht => .inr ⟨text, ht⟩
  obtain ⟨hsound, -⟩ := Session.sound_run (h.sound _) hmakes hh
  exact (hsound.kept.2 hs p hp).resolve_left hid

/-- A store that a run of edits on a fresh one comes to, with no transaction open that can only be
undone. -/
def Reachable (s : Store) : Prop :=
  ∃ (start : Store) (events : List Event), start.Fresh ∧
    (∀ e ∈ events, e.Holdable start.medium) ∧
    s = (Session.run { store := start } events).store ∧ s.spoilt = false

theorem Reachable.exists_shows {s : Store} (h : s.Reachable) : ∃ f, s.Shows f := by
  obtain ⟨start, events, hfresh, hh, rfl, hs⟩ := h
  have hsound := (Session.sound_run (hfresh.sound fun _ _ => True)
    (Session.makes_true _ _) hh).1
  exact hsound.kept.1.exists_shows hs

theorem Reachable.spoilt_eq {s : Store} (h : s.Reachable) : s.spoilt = false := by
  obtain ⟨_, _, _, _, _, hs⟩ := h
  exact hs

/-- The fields of all stored paragraphs pass the check. -/
theorem Reachable.checked {s : Store} (h : s.Reachable) :
    ∀ p ∈ s.paragraphs, p.fields.check = .ok p.fields := by
  obtain ⟨start, events, hfresh, hh, rfl, hs⟩ := h
  have hsound := (Session.sound_run (hfresh.sound _) (Session.makes_checked _ _) hh).1
  exact hsound.kept.2 hs

/-- A document of two topmost paragraphs, the first with one below it. -/
def sample : Store :=
  (Session.run { store := { documentId := "d" } }
    [.edit (.append { body := "a" } none), .edit (.append { body := "b" } (some 1)),
      .edit (.append { body := "c" } none)]).store

theorem reachable_sample : sample.Reachable :=
  ⟨_, _, fresh_empty .memory "d", by simp [Event.Holdable, Edit.Holdable], rfl, rfl⟩

end Store

namespace Session

/-- At every moment of a run that began on a fresh store the rows of the document are well formed
and the check of positions finds no problem, unless the open transaction can only be undone, as
never happens with numbers in range. Ids are answered in increasing order, and never again once
they have been issued. -/
theorem run_wellFormed {s : Store} (hs : s.Fresh) (events later : List Event)
    (hh : ∀ e ∈ events ++ later, e.Holdable s.medium) :
    let σ := Session.run { store := s } events
    (σ.store.spoilt = false → σ.store.WellFormed ∧ σ.store.problems = []) ∧
      (InRange { store := s } events → σ.store.spoilt = false) ∧
      σ.answered.Pairwise (· < ·) ∧ (∀ id ∈ σ.answered, s.nextId ≤ id ∧ id < σ.store.nextId) ∧
      σ.store.nextId ≤ (σ.run later).store.nextId ∧
      ∃ new, (σ.run later).answered = σ.answered ++ new ∧ ∀ id ∈ new, σ.store.nextId ≤ id := by
  intro σ
  rw [List.forall_mem_append] at hh
  obtain ⟨hsound, hlater⟩ := sound_run (hs.sound fun _ _ => True) (makes_true _ _) hh.1
  obtain ⟨-, hlater'⟩ := sound_run hsound (makes_true _ _)
    (fun e he => hlater.medium_eq ▸ hh.2 e he)
  refine ⟨fun hsp => ?_, fun hr => spoilt_run (hs.sound _) hs.spoilt_eq hr hh.1,
    hsound.increasing, fun id hid => ⟨?_, hsound.issued id hid⟩, hlater'.nextId_le,
    hlater'.answered⟩
  · obtain ⟨f, hf⟩ := hsound.kept.1.exists_shows hsp
    exact ⟨hf.wellFormed, hf.wellFormed.problems_eq_nil⟩
  · obtain ⟨new, ha, hn⟩ := hlater.answered
    have ha' : σ.answered = new := ha
    exact hn id (ha' ▸ hid)

/-- A paragraph with two below it, of which the first is raised in an inner transaction that is
aborted while the outer one is still open. -/
def raisedInside : List Event :=
  [.start, .edit (.append { body := "a" } none),
    .edit (.importOutline (.list [.text "b", .text "c"]) (some 1)), .start, .edit (.outdent 2),
    .finish true]

theorem raisedInside_wellFormed :
    (Session.run { store := { medium := .database, documentId := "d" } }
      raisedInside).store.WellFormed :=
  ((run_wellFormed (Store.fresh_empty .database "d") raisedInside []
    (by simp [raisedInside, Event.Holdable, Edit.Holdable])).1 rfl).1

end Session

end Bylaws
