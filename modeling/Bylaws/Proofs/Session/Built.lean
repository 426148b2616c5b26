import Bylaws.Proofs.Session.Edits

/-!
# Operations made of single ones

Every edit is put together from a few single operations of a store, by doing one after another and
by transactions (`Store.run_built`). So what each single operation keeps is kept by all edits
(`Built.relates`). In this way an edit of any store, however it ends, comes to a later one and
leaves the rows of all other documents alone (`Built.spares`).
-/

namespace Bylaws.Store

open Forest

variable {α β : Type} {s t : Store}

/-- An operation that is put together from single ones. -/
inductive Built : {α : Type} → StoreM α → Prop where
  | pure {α : Type} (a : α) : Built (Pure.pure a : StoreM α)
  | throw {α : Type} (e : Fault) : Built (MonadExcept.throw e : StoreM α)
  | lift {α : Type} (x : Except Fault α) : Built (liftM x : StoreM α)
  | get : Built (MonadState.get : StoreM Store)
  | bind {α β : Type} {x : StoreM α} {f : α → StoreM β} :
      Built x → (∀ a, Built (f a)) → Built (x >>= f)
  | transaction {α : Type} {x : StoreM α} : Built x → Built (Store.transaction x)
  | create (parent : Option Int) (position : Int) (fields : Fields) :
      Built (Store.create parent position fields)
  | move (id position : Int) (parent : Option Int) : Built (Store.move id position parent)
  | deleteSubtree (id : Int) : Built (Store.deleteSubtree id)

/-- What each single operation keeps, and a transaction that keeps it up to its end, is kept by all
operations. -/
theorem Built.relates {R : Store → Store → Prop} (refl : ∀ s, R s s)
    (trans : ∀ s t u, R s t → R t u → R s u)
    (create : ∀ parent position fields s, R s (Store.create parent position fields s).2)
    (move : ∀ id position parent s, R s (Store.move id position parent s).2)
    (deleteSubtree : ∀ id s, R s (Store.deleteSubtree id s).2)
    (closed : ∀ undone s t, R s.opened t → R s (closed undone s t)) {x : StoreM α} (h : Built x)
    (s : Store) : R s (x s).2 := by
  induction h generalizing s with
  | pure a => exact refl s
  | throw e => exact refl s
  | lift x =>
    cases x with
    | error e => exact refl s
    | ok a => exact refl s
  | get => exact refl s
  | @bind _ _ x f _ _ ihx ihf =>
    have hx := ihx s
    rcases hrun : x s with ⟨e | a, t⟩
    · rw [hrun] at hx
      rwa [bind_error hrun]
    · rw [hrun] at hx
      rw [bind_ok hrun]
      exact trans _ _ _ hx (ihf a t)
  | @transaction _ x _ ih =>
    have hx := ih s.opened
    rcases hrun : x s.opened with ⟨r, t⟩
    rw [hrun] at hx
    rw [transaction_eq hrun]
    exact closed _ _ _ hx
  | create parent position fields => exact create parent position fields s
  | move id position parent => exact move id position parent s
  | deleteSubtree id => exact deleteSubtree id s

/-! ## Edits -/

theorem makeMoves_built (moves : List Move) : Built (makeMoves moves) := by
  induction moves with
  | nil => exact .pure ()
  | cons m moves ih => exact (Built.move m.id m.position m.parent).bind fun _ => ih

theorem append_built (fields : Fields) (parent : Option Int) : Built (append fields parent) :=
  .transaction (.bind .get fun _ => .bind (.lift _) fun _ => .create _ _ _)

theorem insert_built (fields : Fields) (neighbour : Neighbour) :
    Built (insert fields neighbour) := by
  have hmake : ∀ (s : Store) (place : Paragraph × Int), Built (do
      makeMoves (shifted 1 ((s.children place.1.parent).reverse.filter
        fun p => place.2 ≤ p.position))
      create place.1.parent place.2 fields) := fun s place =>
    .bind (makeMoves_built _) fun _ => .create _ _ _
  refine .transaction (.bind .get fun s => ?_)
  cases neighbour with
  | before id => exact .bind (.lift _) fun r => .bind (.pure _) fun place => hmake s place
  | after id => exact .bind (.lift _) fun r => .bind (.pure _) fun place => hmake s place

theorem indent_built (id : Int) : Built (indent id) := by
  refine .transaction (.bind .get fun s => .bind (.lift _) fun p => ?_)
  dsimp only
  split
  · exact .pure false
  · exact .bind (makeMoves_built _) fun _ => .pure true

theorem outdent_built (id : Int) : Built (outdent id) := by
  refine .transaction (.bind .get fun s => .bind (.lift _) fun p => ?_)
  dsimp only
  split
  · exact .pure false
  · exact .bind (.lift _) fun _ => .bind (makeMoves_built _) fun _ => .pure true

theorem delete_built (id : Int) : Built (delete id) :=
  .transaction (.bind .get fun _ => .bind (.lift _) fun _ =>
    .bind (.deleteSubtree id) fun _ => makeMoves_built _)

theorem leaf_built (parent : Option Int) (c : Cursor) (v : Value) :
    Built (do
      let fields ← Fields.ofText (← v.outlineText)
      let id ← create parent c.position fields
      return ([id], { position := c.position + 1, last := some id }) :
        StoreM (List Int × Cursor)) :=
  .bind (.lift _) fun _ => .bind (.lift _) fun _ => .bind (.create _ _ _) fun _ => .pure _

theorem enter_built (c : Cursor) (items : List Value) : Built (enter c items) := by
  unfold enter
  cases c.last with
  | none => exact .throw _
  | some id => exact .bind .get fun _ => .pure _

mutual

theorem importItem_built (around : List (Nat × Value)) (parent : Option Int) (c : Cursor) :
    (v : Value) → Built (importItem around parent c v)
  | .list items => by
    unfold importItem
    exact .bind (enter_built _ _) fun _ =>
      .bind (importItems_built around _ _ items) fun _ => .pure _
  | .tuple items => by
    unfold importItem
    exact .bind (enter_built _ _) fun _ =>
      .bind (importItems_built around _ _ items) fun _ => .pure _
  | .loop _ v => importItem_built _ parent c v
  | .again _ => .bind (enter_built _ _) fun _ => .throw _
  | .null => leaf_built parent c .null
  | .bool b => leaf_built parent c (.bool b)
  | .int n => leaf_built parent c (.int n)
  | .float x => leaf_built parent c (.float x)
  | .text t => leaf_built parent c (.text t)
  | .dict entries => leaf_built parent c (.dict entries)
  | .set items => leaf_built parent c (.set items)
  | .constant v => leaf_built parent c (.constant v)
  | .date d => leaf_built parent c (.date d)
  | .moment t => leaf_built parent c (.moment t)
  | .bytes bs => leaf_built parent c (.bytes bs)

theorem importItems_built (around : List (Nat × Value)) (parent : Option Int) (c : Cursor) :
    (items : List Value) → Built (importItems around parent c items)
  | [] => .pure []
  | v :: rest =>
    .bind (importItem_built around parent c v) fun _ =>
      .bind (importItems_built around parent _ rest) fun _ => .pure _

end

theorem importOutline_built (outline : Value) (parent : Option Int) :
    Built (importOutline outline parent) := by
  refine .transaction ?_
  cases outline.members? with
  | none => exact .throw _
  | some items => exact .bind .get fun _ => .bind (.lift _) fun _ => importItems_built _ _ _ items

theorem run_built (e : Edit) : Built e.run := by
  cases e with
  | append fields parent => exact .bind (.lift _) fun _ => .bind (append_built _ _) fun _ => .pure _
  | insert fields before after =>
    exact .bind (.lift _) fun _ => .bind (.lift _) fun _ =>
      .bind (insert_built _ _) fun _ => .pure _
  | indent id => exact .bind (indent_built id) fun _ => .pure _
  | outdent id => exact .bind (outdent_built id) fun _ => .pure _
  | delete id => exact .bind (delete_built id) fun _ => .pure _
  | importOutline outline parent => exact importOutline_built outline parent

/-! ## Writes -/

/-- What a check of numbers and a write after it come to: the write is made, or the store is as it
was, but that its open transaction may be spoilt. -/
theorem checkRange_bind_cases (position : Int) (heading : Option Int) (f : Unit → StoreM β)
    (s : Store) :
    ((checkRange position heading >>= f) s).2 = (f () s).2 ∨
      ((checkRange position heading >>= f) s).2 = s ∨
      ((checkRange position heading >>= f) s).2 = { s with spoilt := s.inTransaction } := by
  by_cases hc : s.canHold position heading = true
  · rw [bind_ok (checkRange_ok hc)]
    exact .inl rfl
  · rcases checkTransfer_cases (s := s) (position :: heading.toList) with ht | ht
    · exact .inr (.inr (by rw [bind_error (checkRange_outOfRange ht hc)]))
    · exact .inr (.inl (by rw [bind_error (checkRange_notTransferable ht)]))

/-- What comes after something that is looked up, if that is found. -/
theorem lift_bind_cases (x : Except Fault α) (f : α → StoreM β) (s : Store) :
    (∃ a, ((liftM x >>= f) s).2 = (f a s).2) ∨ ((liftM x >>= f) s).2 = s := by
  cases x with
  | error e => exact .inr (by rw [bind_error (lift_error rfl)])
  | ok a => exact .inl ⟨a, by rw [bind_ok (lift_ok rfl)]⟩

theorem create_cases (parent : Option Int) (position : Int) (fields : Fields) (s : Store) :
    (create parent position fields s).2 = s.added parent position fields ∨
      (create parent position fields s).2 = s ∨
      (create parent position fields s).2 = { s with spoilt := s.inTransaction } := by
  unfold create
  rw [bind_ok get_run]
  rcases lift_bind_cases (s.checkParent parent) _ s with ⟨_, h⟩ | h
  · rw [h]
    exact checkRange_bind_cases position fields.heading _ s
  · exact .inr (.inl h)

theorem move_cases (id position : Int) (parent : Option Int) (s : Store) :
    (move id position parent s).2 =
        { s with rows := s.rows.map (moveRow s.documentId id position parent) } ∨
      (move id position parent s).2 = s ∨
      (move id position parent s).2 = { s with spoilt := s.inTransaction } := by
  unfold move
  rw [bind_ok get_run]
  rcases lift_bind_cases (s.get id) _ s with ⟨_, h⟩ | h
  · rw [h]
    rcases lift_bind_cases (s.checkParent parent) _ s with ⟨_, h⟩ | h
    · rw [h]
      exact checkRange_bind_cases position none _ s
    · exact .inr (.inl h)
  · exact .inr (.inl h)

/-! ## Later stores -/

/-- No id stands twice among all rows, and all of them have been issued, from one upward. -/
structure Numbered (s : Store) : Prop where
  nodup : (s.rows.map (·.id)).Nodup
  issued : ∀ id ∈ s.rows.map (·.id), 1 ≤ id ∧ id < s.nextId
  next : 1 ≤ s.nextId

theorem Numbered.mono (h : s.Numbered) (hids : (t.rows.map (·.id)).Sublist (s.rows.map (·.id)))
    (hn : s.nextId ≤ t.nextId) : t.Numbered where
  nodup := hids.nodup h.nodup
  issued := by
    intro id hid
    obtain ⟨hlow, hhigh⟩ := h.issued id (hids.subset hid)
    omega
  next := h.next.trans hn

/-- From a store to a later one the rows of all other documents stay as they are, and ids stay
distinct. No transaction is left spoilt but one that is still open. -/
structure Spares (s t : Store) : Prop extends Follows s t where
  others_eq : ∀ d, d ≠ s.documentId →
    t.rows.filter (·.documentId == d) = s.rows.filter (·.documentId == d)
  numbered : s.Numbered → t.Numbered
  settled : s.inTransaction = false → s.spoilt = false → t.spoilt = false

namespace Spares

theorem refl (s : Store) : s.Spares s := ⟨.refl s, fun _ _ => rfl, id, fun _ => id⟩

theorem trans {u : Store} (h₁ : s.Spares t) (h₂ : t.Spares u) : s.Spares u where
  toFollows := h₁.toFollows.trans h₂.toFollows
  others_eq := fun d hd =>
    (h₂.others_eq d (h₁.documentId_eq ▸ hd)).trans (h₁.others_eq d hd)
  numbered := fun h => h₂.numbered (h₁.numbered h)
  settled := fun hi hs => h₂.settled (h₁.inTransaction_eq.trans hi) (h₁.settled hi hs)

theorem spoilt (s : Store) : s.Spares { s with spoilt := s.inTransaction } where
  toFollows := ⟨rfl, rfl, rfl, Int.le_refl _⟩
  others_eq := fun _ _ => rfl
  numbered := fun h => h.mono (List.Sublist.refl _) (Int.le_refl _)
  settled := fun hi _ => hi

theorem added (s : Store) (parent : Option Int) (position : Int) (fields : Fields) :
    s.Spares (s.added parent position fields) where
  toFollows := follows_added parent position fields
  others_eq := by
    intro d hd
    show (s.rows ++ [_]).filter _ = _
    rw [List.filter_append]
    have hne : ¬ (row s.documentId parent position s.nextId fields).documentId = d :=
      fun h => hd h.symm
    simp [hne]
  numbered := by
    rintro ⟨hnodup, hissued, hnext⟩
    have hids : (s.added parent position fields).rows.map (·.id) =
        s.rows.map (·.id) ++ [s.nextId] := List.map_append ..
    have hlater : (s.added parent position fields).nextId = s.nextId + 1 := rfl
    refine ⟨?_, ?_, by omega⟩
    · rw [hids, List.nodup_append]
      refine ⟨hnodup, List.nodup_singleton _, ?_⟩
      intro i hi j hj
      obtain rfl := List.mem_singleton.1 hj
      have := hissued i hi
      omega
    · intro id hid
      rw [hids] at hid
      rcases List.mem_append.1 hid with hid | hid
      · have := hissued id hid
        omega
      · obtain rfl := List.mem_singleton.1 hid
        omega
  settled := fun _ hs => hs

theorem moved (s : Store) (id position : Int) (parent : Option Int) :
    s.Spares { s with rows := s.rows.map (moveRow s.documentId id position parent) } where
  toFollows := ⟨rfl, rfl, rfl, Int.le_refl _⟩
  others_eq := by
    intro d hd
    show (s.rows.map _).filter _ = _
    rw [List.filter_map]
    have hsame : ∀ p ∈ s.rows.filter (·.documentId == d),
        moveRow s.documentId id position parent p = p := by
      intro p hp
      have hdoc : p.documentId = d := by simpa using (List.mem_filter.1 hp).2
      unfold moveRow
      rw [if_neg]
      simp [hdoc, hd]
    have hfilter : ((fun p : Paragraph => p.documentId == d) ∘
        moveRow s.documentId id position parent) = fun p => p.documentId == d := by
      funext p
      simp [moveRow_documentId]
    rw [hfilter, List.map_congr_left hsame, List.map_id']
  numbered := by
    intro h
    have hids : (s.rows.map (moveRow s.documentId id position parent)).map (·.id) =
        s.rows.map (·.id) := by
      rw [List.map_map]
      exact List.map_congr_left fun p _ => moveRow_id _ _ _ _ p
    exact h.mono (hids ▸ List.Sublist.refl _) (Int.le_refl _)
  settled := fun _ hs => hs

theorem without (s : Store) (id : Int) : s.Spares (s.without id) where
  toFollows := follows_without s id
  others_eq := by
    intro d hd
    show (s.rows.filter _).filter _ = _
    rw [List.filter_filter]
    refine List.filter_congr fun p _ => ?_
    by_cases hp : p.documentId = d
    · simp [hp, hd]
    · simp [hp]
  numbered := fun h => h.mono (List.filter_sublist.map _) (Int.le_refl _)
  settled := fun _ hs => hs

theorem closed (undone : Bool) (h : s.opened.Spares t) : s.Spares (closed undone s t) := by
  have hfollows := follows_closed undone h.toFollows
  have hothers : ∀ d, d ≠ s.documentId →
      t.rows.filter (·.documentId == d) = s.rows.filter (·.documentId == d) := fun d hd => by
    rw [h.others_eq d (by rwa [documentId_opened]), rows_opened]
  have hrows := rows_closed undone s t
  refine ⟨hfollows, fun d hd => ?_, fun hs => ?_, fun hi hs => ?_⟩
  · rcases hrows with hr | hr
    · rw [hr]
    · rw [hr, hothers d hd]
  · rcases hrows with hr | hr
    · exact hs.mono (by rw [hr]) hfollows.nextId_le
    · have hopened : s.opened.Numbered := hs.mono (by rw [rows_opened]) (nextId_opened s).ge
      exact (h.numbered hopened).mono (by rw [hr]) (nextId_closed undone s t).ge
  · have hsettled := h.settled
    unfold Store.opened at hsettled
    unfold Store.closed
    cases hm : s.medium with
    | memory =>
      rw [hm] at hsettled
      cases undone <;> exact hsettled hi hs
    | database => simp [hi]

end Spares

/-- An operation leaves the rows of all other documents as they are, and gives no id twice. -/
theorem Built.spares {x : StoreM α} (h : Built x) (s : Store) : s.Spares (x s).2 := by
  refine h.relates (R := Spares) Spares.refl (fun _ _ _ h₁ h₂ => h₁.trans h₂) ?_ ?_ ?_
    (fun undone _ _ h => .closed undone h) s
  · intro parent position fields s
    rcases create_cases parent position fields s with h | h | h <;> rw [h]
    · exact .added s parent position fields
    · exact .refl s
    · exact .spoilt s
  · intro id position parent s
    rcases move_cases id position parent s with h | h | h <;> rw [h]
    · exact .moved s id position parent
    · exact .refl s
    · exact .spoilt s
  · intro id s
    rcases deleteSubtree_cases id s with h | h <;> rw [h]
    · exact .without s id
    · exact .refl s

/-- An operation, however it ends, comes to a later store of the same document on the same medium,
in the same transaction. -/
theorem Built.follows {x : StoreM α} (h : Built x) (s : Store) : s.Follows (x s).2 :=
  (h.spares s).toFollows

end Bylaws.Store
