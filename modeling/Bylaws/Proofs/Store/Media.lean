import Bylaws.Proofs.Store.Moves
import Bylaws.Proofs.Store.Transaction

/-!
# The same store on the other medium

A store in memory, taken as it is to a database (`Store.onDatabase`), and what keeps operations on
the two alike: they answer the same and leave the same behind (`Store.Agrees`). Single operations
agree as long as the ids that they are given can be handed to a database and it can hold the
numbers that they write; a transaction agrees if none is open around it, or if it does not fail
after it has written something (`Agrees.transaction`).
-/

namespace Bylaws

/-- Whether a database can hold the position and the heading level of a paragraph. -/
def Paragraph.Held (p : Paragraph) : Prop :=
  Store.fits p.position = true ∧ ∀ n, p.heading = some n → Store.fits n = true

instance (p : Paragraph) : Decidable p.Held :=
  inferInstanceAs (Decidable (_ ∧ ∀ n ∈ p.heading, Store.fits n = true))

namespace Store

open Forest

variable {α β : Type} {s t : Store} {inside : Bool}

/-- A store in memory as it would be on a database, inside a transaction or not. -/
def onDatabase (s : Store) (inside : Bool) : Store :=
  { s with medium := .database, inTransaction := inside, spoilt := false }

/-- Whether a number can be used as a name on both media. -/
def Nameable (s : Store) (id : Int) : Prop := s.contains id = true ∨ isTransferable id = true

instance (s : Store) (id : Int) : Decidable (s.Nameable id) := inferInstanceAs (Decidable (_ ∨ _))

/-- On a store in memory and on the same one on a database two operations give the same answer
and leave the same behind. -/
structure Agrees (inside : Bool) (x y : StoreM α) (s : Store) : Prop where
  run_eq : y (s.onDatabase inside) = ((x s).1, (x s).2.onDatabase inside)
  medium_eq : (x s).2.medium = .memory

namespace Agrees

variable {x y : StoreM α} {f g : α → StoreM β}

theorem of_eq {r : Except Fault α} (hm : t.medium = .memory) (hx : x s = (r, t))
    (hy : y (s.onDatabase inside) = (r, t.onDatabase inside)) : Agrees inside x y s where
  run_eq := by rw [hy, hx]
  medium_eq := by rw [hx]; exact hm

theorem pure (hm : s.medium = .memory) (a : α) :
    Agrees inside (Pure.pure a : StoreM α) (Pure.pure a) s := of_eq hm rfl rfl

theorem throw (hm : s.medium = .memory) (e : Fault) :
    Agrees inside (MonadExcept.throw e : StoreM α) (MonadExcept.throw e) s := of_eq hm rfl rfl

/-- Looking up the same. -/
theorem lift (hm : s.medium = .memory) {a b : Except Fault α} (h : b = a) :
    Agrees inside (liftM a : StoreM α) (liftM b) s := by
  subst h
  cases b with
  | error e => exact of_eq hm (lift_error rfl) (lift_error rfl)
  | ok a => exact of_eq hm (lift_ok rfl) (lift_ok rfl)

theorem bind (h : Agrees inside x y s)
    (hf : ∀ a t, x s = (.ok a, t) → Agrees inside (f a) (g a) t) :
    Agrees inside (x >>= f) (y >>= g) s := by
  obtain ⟨hrun, hm⟩ := h
  rcases hx : x s with ⟨e | a, t⟩
  · rw [hx] at hrun hm
    exact of_eq hm (bind_error hx) (bind_error hrun)
  · rw [hx] at hrun
    obtain ⟨hnext, hm'⟩ := hf a t hx
    refine of_eq (r := (f a t).1) hm' (bind_ok hx) ?_
    rw [bind_ok hrun, hnext]

/-- Looking up the same, and going on with what is found. -/
theorem lift_bind (hm : s.medium = .memory) {a b : Except Fault α} (h : b = a)
    (hf : ∀ c, a = .ok c → Agrees inside (f c) (g c) s) :
    Agrees inside (liftM a >>= f) (liftM b >>= g) s := by
  refine .bind (.lift hm h) fun c t hx => ?_
  obtain ⟨hc, rfl⟩ := lift_eq_ok hx
  exact hf c hc

theorem medium_of_run (h : Agrees inside x y s) {r : Except Fault α} (hx : x s = (r, t)) :
    t.medium = .memory := by
  have hm := h.medium_eq
  rwa [hx] at hm

theorem bind_pure (h : Agrees inside x y s) (f : α → β) :
    Agrees inside (x >>= fun a => Pure.pure (f a)) (y >>= fun a => Pure.pure (f a)) s :=
  h.bind fun a _ hx => .pure (h.medium_of_run hx) (f a)

/-- Each operation may go on with the store that it runs on. -/
theorem get_bind {f g : Store → StoreM α} (h : Agrees inside (f s) (g (s.onDatabase inside)) s) :
    Agrees inside (MonadState.get >>= f) (MonadState.get >>= g) s := by
  obtain ⟨hrun, hm⟩ := h
  refine of_eq (r := (f s s).1) hm (bind_ok get_run) ?_
  rw [bind_ok get_run, hrun]

end Agrees

/-! ## Names -/

theorem canHold_of_memory (hm : s.medium = .memory) (position : Int) (heading : Option Int) :
    s.canHold position heading = true := by
  unfold canHold
  rw [hm]

theorem checkTransfer_of_memory (hm : s.medium = .memory) (ns : List Int) :
    s.checkTransfer ns = .ok () := by
  unfold checkTransfer
  rw [hm]

theorem checkName_of_memory (hm : s.medium = .memory) (name : Option Int) :
    s.checkName name = .ok () := by
  cases name with
  | none => rfl
  | some id =>
    show (if s.contains id then _ else _) = _
    rw [checkTransfer_of_memory hm, ite_self]

theorem checkName_onDatabase (hm : s.medium = .memory) {name : Option Int}
    (h : ∀ id, name = some id → s.Nameable id) :
    (s.onDatabase inside).checkName name = s.checkName name := by
  rw [checkName_of_memory hm]
  cases name with
  | none => rfl
  | some id =>
    show (if s.contains id then _ else if [id].all isTransferable then _ else _) = _
    rcases h id rfl with h | h <;> simp [h]

theorem get_onDatabase (hm : s.medium = .memory) {id : Int} (h : s.Nameable id) :
    (s.onDatabase inside).get id = s.get id := by
  have hname : (s.onDatabase inside).checkName (some id) = s.checkName (some id) :=
    checkName_onDatabase hm fun _ he => Option.some.inj he ▸ h
  unfold get
  rw [hname]
  rfl

theorem get_eq_ok {id : Int} {p : Paragraph} (h : s.get id = .ok p) :
    p ∈ s.paragraphs ∧ p.id = id := by
  unfold get at h
  cases hf : s.find? id with
  | none =>
    rw [hf] at h
    cases hn : s.checkName (some id) <;> rw [hn] at h <;> exact nomatch h
  | some q =>
    rw [hf] at h
    obtain rfl : q = p := by
      cases hn : s.checkName (some id) with
      | error e =>
        rw [hn] at h
        exact nomatch h
      | ok =>
        rw [hn] at h
        exact Except.ok.inj h
    exact ⟨List.mem_of_find?_eq_some hf, by simpa using List.find?_some hf⟩

theorem checkParent_onDatabase (hm : s.medium = .memory) {parent : Option Int}
    (h : ∀ id, parent = some id → s.Nameable id) :
    (s.onDatabase inside).checkParent parent = s.checkParent parent := by
  cases parent with
  | none => rfl
  | some id =>
    exact congrArg (fun x : Except Fault Paragraph => x >>= fun _ => pure ())
      (get_onDatabase hm (h id rfl))

theorem nextPosition_onDatabase (hm : s.medium = .memory) {parent : Option Int}
    (h : ∀ id, parent = some id → s.Nameable id) :
    (s.onDatabase inside).nextPosition parent = s.nextPosition parent := by
  unfold nextPosition
  rw [checkName_onDatabase hm h]
  rfl

theorem childrenOf_onDatabase (hm : s.medium = .memory) {parent : Option Int}
    (h : ∀ id, parent = some id → s.Nameable id) :
    (s.onDatabase inside).childrenOf parent = s.childrenOf parent := by
  unfold childrenOf
  rw [checkName_onDatabase hm h]
  rfl

/-! ## Writes -/

/-- A paragraph is created below one that is there. -/
theorem create_eq_added {parent : Option Int} {position n : Int} {fields : Fields}
    (h : create parent position fields s = (.ok n, t)) :
    n = s.nextId ∧ t = s.added parent position fields ∧
      ∀ id, parent = some id → s.contains id = true := by
  have hp : ∀ id, parent = some id → s.contains id = true := by
    rintro id rfl
    by_contra hc
    obtain ⟨e, he⟩ := create_missing position fields hc
    exact nomatch he.symm.trans h
  obtain ⟨-, -, hc⟩ := create_eq_ok h
  rw [create_ok hp hc] at h
  cases h
  exact ⟨rfl, rfl, hp⟩

/-- In memory a paragraph is created, or its parent is missing and nothing changes. -/
theorem create_cases_of_memory (hm : s.medium = .memory) (parent : Option Int) (position : Int)
    (fields : Fields) :
    create parent position fields s = (.ok s.nextId, s.added parent position fields) ∨
      ∃ e, create parent position fields s = (.error e, s) := by
  by_cases hc : ∀ id, parent = some id → s.contains id = true
  · exact .inl (create_ok hc (canHold_of_memory hm position fields.heading))
  · simp only [not_forall] at hc
    obtain ⟨id, rfl, hc⟩ := hc
    exact .inr (create_missing position fields hc)

theorem create_agrees (hm : s.medium = .memory) {parent : Option Int} {position : Int}
    {fields : Fields} (hp : ∀ id, parent = some id → s.Nameable id)
    (hheld : ∀ n t, create parent position fields s = (.ok n, t) →
      (row s.documentId parent position s.nextId fields).Held) :
    Agrees inside (create parent position fields) (create parent position fields) s := by
  by_cases hc : ∀ id, parent = some id → s.contains id = true
  · have hrun := create_ok hc (canHold_of_memory hm position fields.heading)
    have hfits : (s.onDatabase inside).canHold position fields.heading = true :=
      canHold_iff.2 fun _ => hheld _ _ hrun
    exact .of_eq (t := s.added parent position fields) hm hrun
      (create_ok (s := s.onDatabase inside) hc hfits)
  · simp only [not_forall] at hc
    obtain ⟨id, rfl, hc⟩ := hc
    obtain ⟨e, he⟩ := checkParent_error hc
    have he' : (s.onDatabase inside).checkParent (some id) = .error e :=
      (checkParent_onDatabase hm hp).trans he
    refine .of_eq (r := .error e) hm ?_ ?_ <;> unfold create
    · rw [bind_ok get_run, bind_error (lift_error he)]
    · rw [bind_ok get_run, bind_error (lift_error he')]

theorem contains_of_move {id : Int} {position : Int} {parent : Option Int}
    (h : move id position parent s = (.ok (), t)) :
    s.contains id = true ∧ ∀ i, parent = some i → s.contains i = true := by
  unfold move at h
  rw [bind_ok get_run] at h
  obtain ⟨_, _, hget, h⟩ := bind_eq_ok h
  obtain ⟨hget, rfl⟩ := lift_eq_ok hget
  obtain ⟨_, _, hparent, -⟩ := bind_eq_ok h
  obtain ⟨hparent, -⟩ := lift_eq_ok hparent
  constructor
  · by_contra hc
    obtain ⟨e, he⟩ := get_error hc
    exact nomatch he.symm.trans hget
  · rintro i rfl
    by_contra hc
    obtain ⟨e, he⟩ := checkParent_error hc
    exact nomatch he.symm.trans hparent

/-- In memory a move is made, or it names something that is missing and nothing changes. -/
theorem move_cases_of_memory (hm : s.medium = .memory) (id position : Int)
    (parent : Option Int) :
    move id position parent s =
        (.ok (), { s with rows := s.rows.map (moveRow s.documentId id position parent) }) ∨
      ∃ e, move id position parent s = (.error e, s) := by
  by_cases hid : s.contains id = true
  · by_cases hp : ∀ i, parent = some i → s.contains i = true
    · exact .inl (move_ok hid hp (canHold_of_memory hm position none))
    · simp only [not_forall] at hp
      obtain ⟨i, rfl, hc⟩ := hp
      obtain ⟨p, hf⟩ := Option.isSome_iff_exists.1 hid
      obtain ⟨e, he⟩ := checkParent_error hc
      refine .inr ⟨e, ?_⟩
      unfold move
      rw [bind_ok get_run, bind_ok (lift_ok (get_ok hf)), bind_error (lift_error he)]
  · obtain ⟨e, he⟩ := get_error hid
    refine .inr ⟨e, ?_⟩
    unfold move
    rw [bind_ok get_run, bind_error (lift_error he)]

/-- Moves that are made found all that they name. -/
theorem ready_of_makeMoves {moves : List Move} (h : makeMoves moves s = (.ok (), t)) :
    s.Ready moves := by
  induction moves generalizing s with
  | nil => exact fun m hm => absurd hm List.not_mem_nil
  | cons m moves ih =>
    obtain ⟨_, u, hmove, hmoves⟩ := bind_eq_ok h
    have hfirst := contains_of_move hmove
    obtain rfl := move_eq_ok hmove
    intro n hn
    rcases List.mem_cons.1 hn with rfl | hn
    · exact hfirst
    · obtain ⟨hid, hparent⟩ := ih hmoves n hn
      rw [contains_move] at hid
      exact ⟨hid, fun i hi => contains_move m.id m.position m.parent ▸ hparent i hi⟩

/-- The positions that moves give are those of rows in the end, if no id is named twice. -/
theorem fits_of_relocate {moves : List Move} (hr : s.Ready moves)
    (hn : (moves.map (·.id)).Nodup) (hheld : ∀ p ∈ (s.relocate moves).rows, p.Held) :
    ∀ m ∈ moves, fits m.position = true := by
  intro m hm
  obtain ⟨p, hp, hid⟩ := contains_iff_exists.1 (hr m hm).1
  have hdoc : p.documentId = s.documentId := by simpa using List.of_mem_filter hp
  have hmem : relocated s.documentId moves p ∈ (s.relocate moves).paragraphs := by
    rw [paragraphs_relocate]
    exact List.mem_map_of_mem hp
  have hfits := (hheld _ (mem_rows_of_mem hmem)).1
  rwa [relocated_of_mem hn hdoc hm hid.symm] at hfits

theorem makeMoves_agrees (hm : s.medium = .memory) {moves : List Move}
    (hok : makeMoves moves s = (.ok (), t)) (hn : (moves.map (·.id)).Nodup)
    (hheld : ∀ p ∈ t.rows, p.Held) :
    Agrees inside (makeMoves moves) (makeMoves moves) s := by
  have hready := ready_of_makeMoves hok
  obtain rfl := makeMoves_eq_ok hok
  have hfits := fits_of_relocate hready hn hheld
  refine .of_eq (t := s.relocate moves) hm hok
    (makeMoves_ok (s := s.onDatabase inside) hready fun m hm => ?_)
  exact canHold_iff.2 fun _ => ⟨hfits m hm, fun n h => nomatch h⟩

/-! ## Transactions -/

theorem opened_of_memory (hm : s.medium = .memory) : s.opened = s := by
  unfold opened
  rw [hm]

theorem closed_of_memory (hm : s.medium = .memory) (undone : Bool) (t : Store) :
    closed undone s t = if undone then { t with rows := s.rows } else t := by
  unfold closed
  rw [hm]

theorem opened_onDatabase (s : Store) (inside : Bool) :
    (s.onDatabase inside).opened = s.onDatabase true := by
  cases inside <;> rfl

/-- A transaction that succeeds in memory leaves what its body does. -/
theorem transaction_eq_ok_of_memory (hm : s.medium = .memory) {x : StoreM α} {a : α}
    (h : transaction x s = (.ok a, t)) : x s = (.ok a, t) := by
  rcases hx : x s with ⟨r, u⟩
  have hx' : x s.opened = (r, u) := by rw [opened_of_memory hm, hx]
  rw [transaction_eq hx', closed_of_memory hm] at h
  obtain ⟨rfl, hu⟩ := Prod.mk.inj h
  rw [← hu]
  rfl

theorem transaction_ok_of_memory (hm : s.medium = .memory) {x : StoreM α} {a : α}
    (h : x s = (.ok a, t)) : transaction x s = (.ok a, t) := by
  have h' : x s.opened = (.ok a, t) := by rw [opened_of_memory hm, h]
  rw [transaction_eq h', closed_of_memory hm]
  rfl

/-- A transaction ends alike on both media if none is open around it, or if it is not undone once
something is written. -/
theorem closed_onDatabase (hm : s.medium = .memory) {undone : Bool}
    (h : inside = true → undone = true → t.rows = s.rows) :
    closed undone (s.onDatabase inside) (t.onDatabase true) =
      (closed undone s t).onDatabase inside := by
  rw [closed_of_memory hm]
  cases inside with
  | false => cases undone <;> rfl
  | true =>
    cases undone with
    | false => rfl
    | true =>
      show t.onDatabase true = { t with rows := s.rows }.onDatabase true
      rw [← h rfl rfl]

theorem Agrees.transaction (hm : s.medium = .memory) {x y : StoreM α} (h : Agrees true x y s)
    (hin : inside = true → isFault (x s).1 = true → (x s).2.rows = s.rows) :
    Agrees inside (Store.transaction x) (Store.transaction y) s := by
  obtain ⟨hrun, hm'⟩ := h
  rcases hx : x s with ⟨r, t⟩
  rw [hx] at hrun hin hm'
  have hx' : x s.opened = (r, t) := by rw [opened_of_memory hm, hx]
  rw [← opened_onDatabase s inside] at hrun
  refine .of_eq ?_ (transaction_eq hx') ?_
  · rw [closed_of_memory hm]
    cases isFault r <;> exact hm'
  · rw [transaction_eq hrun, closed_onDatabase hm hin]

end Store

end Bylaws
