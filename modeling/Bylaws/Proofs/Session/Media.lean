import Bylaws.Proofs.Rendering.Media

/-!
# Sessions on either medium

A session in memory and the same one on a database give the same answers, and after every event
the same paragraphs are stored and the same is read of them (`Session.media_agree`). It takes
numbers that both media can name paragraphs by and that a database can hold, and no transaction
within another one that has anything to undo: a database does not undo it alone
(`Session.media_differ`). The answer of an edit that makes a paragraph is that paragraph, as a
document answers it (`Store.making_eq`), and giving it changes nothing (`Store.snd_perform`).
-/

namespace Bylaws

open Forest

/-! ## Answers -/

/-- What an edit answers. -/
inductive Answer where
  | made (p : Paragraph)
  | moved (done : Bool)
  | removed
  | imported (ids : List Int)
  deriving DecidableEq

namespace Edit

/-- Makes a paragraph and answers it. -/
def making (x : StoreM Int) : StoreM Answer := do
  let id ← x
  let s ← MonadState.get
  return .made (← s.get id)

/-- Runs an edit and gives its full answer. -/
def perform : Edit → StoreM Answer
  | append fields parent => do making (Store.append (← fields.check) parent)
  | insert fields before after => do
    let neighbour ← Store.Neighbour.of before after
    making (Store.insert (← fields.check) neighbour)
  | indent id => return .moved (← Store.indent id)
  | outdent id => return .moved (← Store.outdent id)
  | delete id => do
    Store.delete id
    return .removed
  | importOutline outline parent => return .imported (← Store.importOutline outline parent)

/-- The ids that an edit is given. -/
def names : Edit → List Int
  | append _ parent => parent.toList
  | insert _ before after => before.toList ++ after.toList
  | indent id => [id]
  | outdent id => [id]
  | delete id => [id]
  | importOutline _ parent => parent.toList

/-- Runs an edit, but leaves there what an import makes before it fails. -/
def attempt : Edit → StoreM (List Int)
  | importOutline outline parent => Store.importing outline parent
  | e => e.run

/-- What it takes for an edit to be the same on both media. The ids that it is given can be names
on both, a database can hold all that it stores, and within a transaction an import does not
fail after it has made something. -/
structure Portable (e : Edit) (inside : Bool) (s : Store) : Prop where
  named : ∀ id ∈ e.names, s.Nameable id
  held : ∀ p ∈ (e.attempt s).2.rows, p.Held
  whole : inside = true → Store.isFault (e.attempt s).1 = true →
    (e.attempt s).2.rows = s.rows

instance (e : Edit) (inside : Bool) (s : Store) : Decidable (e.Portable inside s) :=
  decidable_of_iff ((∀ id ∈ e.names, s.Nameable id) ∧ (∀ p ∈ (e.attempt s).2.rows, p.Held) ∧
      (inside = true → Store.isFault (e.attempt s).1 = true → (e.attempt s).2.rows = s.rows))
    ⟨fun ⟨hn, hh, hw⟩ => ⟨hn, hh, hw⟩, fun ⟨hn, hh, hw⟩ => ⟨hn, hh, hw⟩⟩

end Edit

namespace Store

variable {α : Type} {s : Store} {f : Forest} {inside : Bool}

/-- A paragraph is made and answered as a document does it. -/
theorem making_eq (d : Document) (x : StoreM Int) :
    Edit.making x d.store = ((d.editAndGet x).1.map .made, (d.editAndGet x).2.store) := by
  unfold Edit.making Document.editAndGet Document.edit
  rcases hx : x d.store with ⟨e | id, t⟩
  · rw [bind_error hx]
    rfl
  · rw [bind_ok hx, bind_ok get_run]
    dsimp only [Except.bind]
    cases hp : t.get id with
    | error e => exact bind_error (lift_error rfl)
    | ok p => exact bind_ok (lift_ok rfl)

theorem snd_making (x : StoreM Int) : (Edit.making x s).2 = (x s).2 := by
  refine snd_bind fun id t => ?_
  rw [bind_ok get_run]
  cases t.get id <;> rfl

/-- An edit that gives its full answer leaves the same behind. -/
theorem snd_perform (e : Edit) : (e.perform s).2 = (e.run s).2 := by
  have hmade : ∀ (x : StoreM Int) t, (Edit.making x t).2 = ((x >>= fun id => pure [id]) t).2 :=
    fun x t => (snd_making x).trans (snd_bind fun _ _ => rfl).symm
  cases e with
  | append fields parent => exact snd_bind_congr fun fields' t => hmade _ t
  | insert fields before after =>
    exact snd_bind_congr fun n t => snd_bind_congr fun fields' u => hmade _ u
  | indent id => exact snd_bind_congr fun _ _ => rfl
  | outdent id => exact snd_bind_congr fun _ _ => rfl
  | delete id => exact snd_bind_congr fun _ _ => rfl
  | importOutline outline parent => exact snd_bind fun _ _ => rfl

theorem Agrees.making {x : StoreM Int} (h : Agrees inside x x s)
    (hid : ∀ id t, x s = (.ok id, t) → t.contains id = true) :
    Agrees inside (Edit.making x) (Edit.making x) s := by
  refine h.bind fun id t hx => .get_bind ?_
  have hm := h.medium_of_run hx
  exact .lift_bind hm (get_onDatabase hm (.inl (hid id t hx))) fun p _ => .pure hm _

theorem Neighbour.id_mem_names {before after : Option Int} {neighbour : Neighbour}
    (h : Neighbour.of before after = .ok neighbour) (fields : Fields) :
    neighbour.id ∈ (Edit.insert fields before after).names := by
  unfold Neighbour.of at h
  split at h <;> cases h <;> exact List.mem_singleton_self _

/-- In memory every edit can be asked for. -/
theorem holdable_of_memory (hm : s.medium = .memory) (e : Edit) : e.Holdable s.medium := by
  cases e with
  | insert => exact fun hd => absurd (hm.symm.trans hd) (by decide)
  | _ => trivial

/-- The ids that an edit answers are those of stored paragraphs. -/
theorem stored_of_run (hs : s.spoilt = false) (h : s.Shows f) {e : Edit}
    (hh : e.Holdable s.medium) {ids : List Int} {t : Store} (hrun : e.run s = (.ok ids, t)) :
    ∀ id ∈ ids, t.contains id = true := by
  have ho := edit_outcome (P := fun _ _ => True) hs h (h.all_iff.2 fun _ _ => trivial) hh
  rw [hrun] at ho
  cases ho with
  | done _ _ ht ha =>
    obtain ⟨-, -, hmem⟩ := ha
    exact fun id hid => ht.contains_iff.2 (hmem id hid).2

/-- An edit in memory ends with the rows that it comes to, or with those that it began with. -/
theorem rows_of_run (hm : s.medium = .memory) (e : Edit) :
    (e.run s).2.rows = (e.attempt s).2.rows ∨ (e.run s).2.rows = s.rows := by
  cases e with
  | importOutline outline parent =>
    show (Store.importOutline outline parent s).2.rows = (importing outline parent s).2.rows ∨
      (Store.importOutline outline parent s).2.rows = s.rows
    rcases hx : importing outline parent s with ⟨r, t⟩
    have hx' : importing outline parent s.opened = (r, t) := by rw [opened_of_memory hm, hx]
    rw [importOutline_eq, transaction_eq hx', closed_of_memory hm]
    cases isFault r with
    | true => exact .inr rfl
    | false => exact .inl rfl
  | _ => exact .inl rfl

/-- An edit that comes down to making one paragraph. -/
theorem made_agrees (hs : s.spoilt = false) (hm : s.medium = .memory) (h : s.Shows f) {e : Edit}
    {x : StoreM Int} (hrun : e.run s = (x >>= fun id => pure [id]) s)
    (hheld : ∀ p ∈ (e.run s).2.rows, p.Held)
    (hx : (∀ p ∈ (x s).2.rows, p.Held) → Agrees inside x x s) :
    Agrees inside (x >>= fun id => pure [id]) (x >>= fun id => pure [id]) s ∧
      Agrees inside (Edit.making x) (Edit.making x) s := by
  rw [hrun, snd_bind fun _ _ => rfl] at hheld
  refine ⟨(hx hheld).bind_pure fun id => [id], (hx hheld).making fun id t ht => ?_⟩
  exact stored_of_run hs h (holdable_of_memory hm e) (hrun.trans (bind_ok ht)) id
    (List.mem_singleton_self id)

/-- An edit that makes no paragraph. -/
theorem unmade_agrees {x : StoreM α} {e : Edit} (hrun : e.run = x >>= fun _ => pure [])
    (hheld : ∀ p ∈ (e.run s).2.rows, p.Held)
    (hx : (∀ p ∈ (x s).2.rows, p.Held) → Agrees inside x x s) (g : α → Answer) :
    Agrees inside e.run e.run s ∧
      Agrees inside (x >>= fun a => pure (g a)) (x >>= fun a => pure (g a)) s := by
  rw [hrun] at hheld ⊢
  rw [snd_bind fun _ _ => rfl] at hheld
  exact ⟨(hx hheld).bind_pure fun _ => [], (hx hheld).bind_pure g⟩

/-- An edit is the same on a database, if that can hold all that it stores and the ids that it is
given can be names on both media. -/
theorem edit_agrees (hs : s.spoilt = false) (hm : s.medium = .memory) (h : s.Shows f) {e : Edit}
    (hp : e.Portable inside s) :
    Agrees inside e.run e.run s ∧ Agrees inside e.perform e.perform s := by
  obtain ⟨hnamed, hheld, hwhole⟩ := hp
  cases e with
  | append fields parent =>
    have hparent : ∀ id, parent = some id → s.Nameable id := fun id hid =>
      hnamed id (Option.mem_toList.2 hid)
    have hmade : ∀ fields', fields.check = .ok fields' →
        Agrees inside (append fields' parent >>= fun id => pure [id]) _ s ∧ _ := fun fields' hc =>
      made_agrees (e := .append fields parent) hs hm h (bind_ok (lift_ok hc)) hheld
        (append_agrees hm hparent)
    constructor
    · exact .lift_bind hm rfl fun fields' hc => (hmade fields' hc).1
    · exact .lift_bind hm rfl fun fields' hc => (hmade fields' hc).2
  | insert fields before after =>
    have hmade : ∀ n fields', Neighbour.of before after = .ok n → fields.check = .ok fields' →
        Agrees inside (insert fields' n >>= fun id => pure [id]) _ s ∧ _ := fun n fields' hn hc =>
      made_agrees (e := .insert fields before after) hs hm h
        ((bind_ok (lift_ok hn)).trans (bind_ok (lift_ok hc))) hheld
        (insert_agrees hs hm h (hnamed _ (Neighbour.id_mem_names hn fields)))
    constructor
    · exact .lift_bind hm rfl fun n hn => .lift_bind hm rfl fun _ hc => (hmade n _ hn hc).1
    · exact .lift_bind hm rfl fun n hn => .lift_bind hm rfl fun _ hc => (hmade n _ hn hc).2
  | indent id =>
    exact unmade_agrees rfl hheld
      (indent_agrees hs hm h (hnamed id (List.mem_singleton_self id))) Answer.moved
  | outdent id =>
    exact unmade_agrees rfl hheld
      (outdent_agrees hs hm h (hnamed id (List.mem_singleton_self id))) Answer.moved
  | delete id =>
    exact unmade_agrees rfl hheld
      (delete_agrees hs hm h (hnamed id (List.mem_singleton_self id))) fun _ => Answer.removed
  | importOutline outline parent =>
    have hx : Agrees inside (importOutline outline parent) (importOutline outline parent) s :=
      importOutline_agrees hm outline (fun id hid => hnamed id (Option.mem_toList.2 hid)) hheld
        hwhole
    exact ⟨hx, hx.bind_pure Answer.imported⟩

end Store

/-! ## Sessions -/

namespace Session

variable {σ : Session} {e : Event}

/-- What an event of a session is answered, if it is an edit. -/
def reply (σ : Session) : Event → Option (Except Fault Answer)
  | .edit e => if σ.store.spoilt then none else some (e.perform σ.store).1
  | _ => none

/-- All answers of a run. -/
def replies (σ : Session) : List Event → List (Option (Except Fault Answer))
  | [] => []
  | e :: events => σ.reply e :: replies (σ.step e) events

/-- What it takes for an event to be the same on both media. A transaction within another one is
not aborted, unless there is nothing to undo. -/
def StepPortable (σ : Session) : Event → Prop
  | .edit e => e.Portable (!σ.before.isEmpty) σ.store
  | .start => True
  | .finish abort =>
    match σ.before with
    | b :: _ :: _ => abort = true → σ.store.rows = b.rows
    | _ => True

/-- What it takes for a run to be the same on both media. -/
def Portable : Session → List Event → Prop
  | _, [] => True
  | σ, e :: events => σ.StepPortable e ∧ Portable (σ.step e) events

instance (σ : Session) (e : Event) : Decidable (σ.StepPortable e) :=
  match σ, e with
  | σ, .edit e => inferInstanceAs (Decidable (e.Portable (!σ.before.isEmpty) σ.store))
  | _, .start => .isTrue trivial
  | ⟨_, [], _, _⟩, .finish _ => .isTrue trivial
  | ⟨_, [_], _, _⟩, .finish _ => .isTrue trivial
  | ⟨store, b :: _ :: _, _, _⟩, .finish abort =>
    inferInstanceAs (Decidable (abort = true → store.rows = b.rows))

instance decidablePortable : (σ : Session) → (events : List Event) → Decidable (Portable σ events)
  | _, [] => .isTrue trivial
  | σ, e :: events =>
    have := decidablePortable (σ.step e) events
    inferInstanceAs (Decidable (σ.StepPortable e ∧ Portable (σ.step e) events))

/-- The stores in which open transactions began, as they would be on a database. -/
def stacked : List Store → List Store
  | [] => []
  | b :: rest => b.onDatabase (!rest.isEmpty) :: stacked rest

/-- A session in memory as it would be on a database. -/
def onDatabase (σ : Session) : Session :=
  { σ with store := σ.store.onDatabase (!σ.before.isEmpty), before := stacked σ.before }

/-- The invariant of a session in memory that goes the same way on a database. -/
structure InMemory (σ : Session) : Prop where
  sound : σ.Sound fun _ _ => True
  medium_eq : σ.store.medium = .memory
  held : ∀ p ∈ σ.store.rows, p.Held
  before_held : ∀ b ∈ σ.before, b.medium = .memory ∧ ∀ p ∈ b.rows, p.Held

theorem InMemory.spoilt_eq (h : σ.InMemory) : σ.store.spoilt = false :=
  h.sound.kept.1.spoilt_eq_false (.inl h.medium_eq)

theorem InMemory.exists_shows (h : σ.InMemory) : ∃ f, σ.store.Shows f :=
  h.sound.kept.1.exists_shows h.spoilt_eq

theorem step_edit (hs : σ.store.spoilt = false) (e : Edit) :
    σ.step (.edit e) =
      { store := (e.run σ.store).2
        before := σ.before
        answered := σ.answered ++ (e.run σ.store).1.toOption.getD []
        written := σ.written ++ if e.writes then (e.run σ.store).1.toOption.getD [] else [] } :=
  if_neg (by simp [hs])

theorem reply_edit (hs : σ.store.spoilt = false) (e : Edit) :
    σ.reply (.edit e) = some (e.perform σ.store).1 := if_neg (by simp [hs])

/-- One event is the same on both media. -/
theorem step_onDatabase (h : σ.InMemory) (hp : σ.StepPortable e) :
    σ.onDatabase.step e = (σ.step e).onDatabase ∧ σ.onDatabase.reply e = σ.reply e := by
  have hspoilt : σ.onDatabase.store.spoilt = false := rfl
  cases e with
  | edit e =>
    obtain ⟨f, hf⟩ := h.exists_shows
    obtain ⟨⟨hrun, -⟩, ⟨hperform, -⟩⟩ := Store.edit_agrees h.spoilt_eq h.medium_eq hf hp
    constructor
    · rw [step_edit hspoilt, step_edit h.spoilt_eq]
      unfold onDatabase
      rw [hrun]
    · rw [reply_edit hspoilt, reply_edit h.spoilt_eq]
      unfold onDatabase
      rw [hperform]
  | start =>
    refine ⟨?_, rfl⟩
    have hopened : σ.onDatabase.store.opened = σ.store.onDatabase true :=
      Store.opened_onDatabase σ.store (!σ.before.isEmpty)
    unfold step
    dsimp only
    rw [hopened, Store.opened_of_memory h.medium_eq]
    rfl
  | finish abort =>
    refine ⟨?_, rfl⟩
    obtain ⟨store, before, answered, written⟩ := σ
    cases before with
    | nil => rfl
    | cons b rest =>
      have hclosed : Store.closed abort (b.onDatabase (!rest.isEmpty)) (store.onDatabase true) =
          (Store.closed abort b store).onDatabase (!rest.isEmpty) := by
        refine Store.closed_onDatabase (h.before_held b List.mem_cons_self).1 fun hin habort => ?_
        cases rest with
        | nil => exact nomatch hin
        | cons _ _ => exact hp habort
      unfold step onDatabase
      simp only [stacked, List.isEmpty_cons, Bool.not_false, hclosed]

/-- One event keeps the invariant. -/
theorem InMemory.step (h : σ.InMemory) (hp : σ.StepPortable e) : (σ.step e).InMemory := by
  have hh : e.Holdable σ.store.medium := by
    cases e with
    | edit e => exact Store.holdable_of_memory h.medium_eq e
    | _ => trivial
  obtain ⟨hsound, hlater⟩ := sound_step h.sound (makes_true σ [e]).1 hh
  have hm := hlater.medium_eq.trans h.medium_eq
  cases e with
  | edit e =>
    rw [step_edit h.spoilt_eq] at hsound hm ⊢
    refine ⟨hsound, hm, ?_, h.before_held⟩
    rcases Store.rows_of_run h.medium_eq e with hrows | hrows
    · exact fun p hrow => hp.held p (hrows ▸ hrow)
    · exact fun p hrow => h.held p (hrows ▸ hrow)
  | start =>
    refine ⟨hsound, hm, ?_, List.forall_mem_cons.2 ⟨⟨h.medium_eq, h.held⟩, h.before_held⟩⟩
    show ∀ p ∈ σ.store.opened.rows, p.Held
    rw [Store.opened_of_memory h.medium_eq]
    exact h.held
  | finish abort =>
    obtain ⟨store, before, answered, written⟩ := σ
    cases before with
    | nil => exact h
    | cons b rest =>
      obtain ⟨hb, hrest⟩ := List.forall_mem_cons.1 h.before_held
      refine ⟨hsound, hm, ?_, hrest⟩
      show ∀ p ∈ (Store.closed abort b store).rows, p.Held
      rw [Store.closed_of_memory hb.1]
      cases abort with
      | true => exact hb.2
      | false => exact h.held

theorem portable_append {events later : List Event} (h : Portable σ (events ++ later)) :
    Portable σ events := by
  induction events generalizing σ with
  | nil => trivial
  | cons e events ih => exact ⟨h.1, ih h.2⟩

/-- A whole run is the same on both media. -/
theorem run_onDatabase (h : σ.InMemory) {events : List Event} (hp : Portable σ events) :
    σ.onDatabase.run events = (σ.run events).onDatabase ∧
      σ.onDatabase.replies events = σ.replies events ∧ (σ.run events).InMemory := by
  induction events generalizing σ with
  | nil => exact ⟨rfl, rfl, h⟩
  | cons e events ih =>
    obtain ⟨hstep, hreply⟩ := step_onDatabase h hp.1
    obtain ⟨hrun, hreplies, hin⟩ := ih (h.step hp.1) hp.2
    rw [← hstep] at hrun hreplies
    exact ⟨hrun, by rw [replies, replies, hreply, hreplies], hin⟩

/-- A session on an empty document. -/
def fresh (medium : Medium) (documentId : String) : Session := { store := { medium, documentId } }

theorem inMemory_fresh (documentId : String) : (fresh .memory documentId).InMemory where
  sound := (Store.fresh_empty .memory documentId).sound _
  medium_eq := rfl
  held := fun _ h => absurd h List.not_mem_nil
  before_held := fun _ h => absurd h List.not_mem_nil

/-- A run on a new document gives the same answers and faults on both media. After every event
the same paragraphs are stored, and whatever can be read of them is the same. It takes a run in
which all ids given can be names on both media and a database can hold all that is stored, and
in which no transaction within another one has anything to undo. -/
theorem media_agree (documentId : String) (events : List Event)
    (h : Portable (fresh .memory documentId) events) :
    (fresh .database documentId).replies events = (fresh .memory documentId).replies events ∧
      ∀ earlier later, events = earlier ++ later →
        Store.ReadsAlike ((fresh .memory documentId).run earlier).store
          ((fresh .database documentId).run earlier).store := by
  have hfresh : (fresh .memory documentId).onDatabase = fresh .database documentId := rfl
  have hin := inMemory_fresh documentId
  refine ⟨?_, ?_⟩
  · rw [← hfresh]
    exact (run_onDatabase hin h).2.1
  · rintro earlier later rfl
    obtain ⟨hrun, -, hin'⟩ := run_onDatabase hin (portable_append h)
    obtain ⟨f, hf⟩ := hin'.exists_shows
    rw [← hfresh, hrun]
    exact hf.readsAlike hin'.medium_eq hin'.held

/-- A transaction that is aborted with one committed within it, and edits after it. -/
def abortedAround : List Event :=
  [.start, .edit (.append { body := "a" } none), .start,
    .edit (.importOutline (.list [.text "b", .list [.text "c"]]) (some 1)), .finish false,
    .finish true, .edit (.append { body := "d", heading := some 2 } none), .edit (.delete 1)]

theorem media_agree_abortedAround :
    Portable (fresh .memory "d") abortedAround ∧
      (fresh .database "d").replies abortedAround = (fresh .memory "d").replies abortedAround ∧
      ((fresh .database "d").run abortedAround).store.paragraphs =
        ((fresh .memory "d").run abortedAround).store.paragraphs := by
  have hportable : Portable (fresh .memory "d") abortedAround := by decide
  obtain ⟨hreplies, hreads⟩ := media_agree "d" abortedAround hportable
  exact ⟨hportable, hreplies, (hreads abortedAround [] (List.append_nil _).symm).paragraphs_eq⟩

/-- A transaction that is aborted within one that is committed. -/
def abortedWithin : List Event :=
  [.start, .edit (.append { body := "a" } none), .start, .edit (.append { body := "b" } none),
    .finish true, .finish false]

/-- A database keeps what a transaction within another one has written before it is aborted, and
refuses numbers far out of range in words of its own. -/
theorem media_differ :
    ((∀ p ∈ ((fresh .database "d").run abortedWithin).store.rows, p.Held) ∧
      ((fresh .memory "d").run abortedWithin).store.paragraphs.map (·.body) = ["a"] ∧
      ((fresh .database "d").run abortedWithin).store.paragraphs.map (·.body) = ["a", "b"]) ∧
    (fresh .memory "d").replies [.edit (.delete (2 ^ 128))] =
      [some (.error (.paragraphMissing (2 ^ 128)))] ∧
    (fresh .database "d").replies [.edit (.delete (2 ^ 128))] = [some (.error .notTransferable)] :=
  ⟨⟨by decide, rfl, rfl⟩, rfl, rfl⟩

end Session

end Bylaws
