import Bylaws.Proofs.Store.Media
import Bylaws.Proofs.Forest.Import
import Bylaws.Proofs.WellFormed

/-!
# Edits on either medium

Each edit of a document in memory agrees with the same edit on a database, as long as all ids that
it is given can be names on both and a database can hold the numbers of all rows that it makes.
What differs is an import that fails while a transaction is open: in memory it is undone alone, on
a database what it has made so far stays.
-/

namespace Bylaws.Store

open Forest

variable {α : Type} {s t : Store} {f : Forest} {inside : Bool}

theorem hasRoom_of_memory (hm : s.medium = .memory) (n : Nat) : s.HasRoom n :=
  fun hd => nomatch hm.symm.trans hd

/-! ## Children -/

theorem Shows.nodup_children (h : s.Shows f) (parent : Option Int) :
    ((s.children parent).map (·.id)).Nodup := by
  refine ((s.children_perm parent).map _).nodup_iff.2 ((List.filter_sublist.map _).nodup ?_)
  exact h.ids_perm.nodup_iff.2 h.nodup

/-- A paragraph is not among the siblings after it. -/
theorem Shows.id_notMem_after (h : s.Shows f) {p : Paragraph} (hp : p ∈ s.paragraphs) :
    p.id ∉ ((s.children p.parent).filter fun q => p.position < q.position).map (·.id) := by
  intro hmem
  obtain ⟨q, hq, hid⟩ := List.mem_map.1 hmem
  obtain ⟨hq, hlt⟩ := List.mem_filter.1 hq
  obtain rfl := h.eq_of_id_eq (mem_children.1 hq).1 hp hid
  simp at hlt

/-- A paragraph is not its own parent. -/
theorem Shows.parent_ne_id (h : s.Shows f) {p : Paragraph} (hp : p ∈ s.paragraphs) :
    p.parent ≠ some p.id := by
  obtain ⟨C, l, b, r, rfl, hrow⟩ := h.exists_place hp
  rw [hrow, row_parent, row_id]
  intro he
  have hids := Hole.nodup_around h.nodup
  rw [ids_append, ids_cons] at hids
  exact List.disjoint_of_nodup_append hids (Hole.mem_ids_of_parent he)
    (List.mem_append_right _ List.mem_cons_self)

theorem map_id_shifted (offset : Int) (ps : List Paragraph) :
    (shifted offset ps).map (·.id) = ps.map (·.id) := by
  unfold shifted
  rw [List.map_map]
  rfl

theorem map_id_placed (parent position : Int) (ps : List Paragraph) :
    (placed parent position ps).map (·.id) = ps.map (·.id) := by
  induction ps generalizing position with
  | nil => rfl
  | cons p ps ih => exact congrArg (p.id :: ·) (ih (position + 1))

/-! ## Adding -/

theorem create_of_isFault {parent : Option Int} {position : Int} {fields : Fields}
    (hm : s.medium = .memory) (h : isFault (create parent position fields s).1 = true) :
    (create parent position fields s).2 = s := by
  rcases create_cases_of_memory hm parent position fields with hrun | ⟨e, hrun⟩
  · rw [hrun] at h
    exact nomatch h
  · rw [hrun]

theorem append_agrees (hm : s.medium = .memory) {fields : Fields} {parent : Option Int}
    (hp : ∀ id, parent = some id → s.Nameable id)
    (hheld : ∀ p ∈ (append fields parent s).2.rows, p.Held) :
    Agrees inside (append fields parent) (append fields parent) s := by
  have hposition : s.nextPosition parent = .ok ((s.childCount parent : Int) + 1) := by
    unfold nextPosition
    rw [checkName_of_memory hm]
    rfl
  unfold append at hheld ⊢
  refine .transaction hm (.get_bind (.lift_bind hm (nextPosition_onDatabase hm hp) ?_)) ?_
  · intro position hn
    refine create_agrees hm hp fun n u hcreate => ?_
    rw [transaction_ok_of_memory hm (t := u) (a := n)] at hheld
    · obtain ⟨-, rfl, -⟩ := create_eq_added hcreate
      exact hheld _ (List.mem_append_right _ (List.mem_singleton_self _))
    · rw [bind_ok get_run, bind_ok (lift_ok hn), hcreate]
  · intro _ hfault
    rw [bind_ok get_run, bind_ok (lift_ok hposition)] at hfault ⊢
    rw [create_of_isFault hm hfault]

/-! ## Edits of a paragraph -/

/-- An edit that looks up a paragraph first, and does not fail if that is there. -/
theorem lookup_agrees (hm : s.medium = .memory) {id : Int} (hid : s.Nameable id)
    {k : Store → Paragraph → StoreM α}
    (hok : s.contains id = true →
      ∃ a t, transaction (MonadState.get >>= fun s => liftM (s.get id) >>= k s) s = (.ok a, t))
    (hheld : ∀ p ∈ (transaction
      (MonadState.get >>= fun s => liftM (s.get id) >>= k s) s).2.rows, p.Held)
    (hk : ∀ p a t, s.get id = .ok p → k s p s = (.ok a, t) → (∀ p ∈ t.rows, p.Held) →
      Agrees true (k s p) (k (s.onDatabase true) p) s) :
    Agrees inside (transaction (MonadState.get >>= fun s => liftM (s.get id) >>= k s))
      (transaction (MonadState.get >>= fun s => liftM (s.get id) >>= k s)) s := by
  by_cases hc : s.contains id = true
  · obtain ⟨a, t, hrun⟩ := hok hc
    rw [hrun] at hheld
    have hbody := transaction_eq_ok_of_memory hm hrun
    refine .transaction hm (.get_bind (.lift_bind hm (get_onDatabase hm hid) ?_)) ?_
    · intro p hp
      rw [bind_ok get_run, bind_ok (lift_ok hp)] at hbody
      exact hk p a t hp hbody hheld
    · rw [hbody]
      exact fun _ h => nomatch h
  · obtain ⟨e, he⟩ := get_error hc
    have hbody : (MonadState.get >>= fun s => liftM (s.get id) >>= k s : StoreM α) s =
        (.error e, s) := by
      rw [bind_ok get_run, bind_error (lift_error he)]
    refine .transaction hm (.get_bind (.lift_bind hm (get_onDatabase hm hid) ?_)) ?_
    · exact fun p hp => nomatch he.symm.trans hp
    · rw [hbody]
      exact fun _ _ => rfl

/-- Moves and then a new paragraph. -/
theorem makeMoves_create_agrees (hm : s.medium = .memory) {moves : List Move}
    {parent : Option Int} {position n : Int} {fields : Fields}
    (hrun : (makeMoves moves >>= fun _ => create parent position fields) s = (.ok n, t))
    (hn : (moves.map (·.id)).Nodup) (hheld : ∀ p ∈ t.rows, p.Held) :
    Agrees inside (makeMoves moves >>= fun _ => create parent position fields)
      (makeMoves moves >>= fun _ => create parent position fields) s := by
  obtain ⟨_, u, hmoves, hcreate⟩ := bind_eq_ok hrun
  obtain ⟨-, rfl, hparent⟩ := create_eq_added hcreate
  have hmade : Agrees inside (makeMoves moves) (makeMoves moves) s := makeMoves_agrees hm hmoves hn
    fun p hp => hheld p (List.mem_append_left _ hp)
  refine hmade.bind fun _ v hv => ?_
  obtain rfl := (Prod.mk.inj (hmoves.symm.trans hv)).2
  have hmu := hmade.medium_of_run hmoves
  refine create_agrees hmu (fun id hid => .inl (hparent id hid)) fun _ _ _ => ?_
  exact hheld _ (List.mem_append_right _ (List.mem_singleton_self _))

theorem insert_ok_of_memory (hs : s.spoilt = false) (hm : s.medium = .memory) (h : s.Shows f)
    (fields : Fields) {neighbour : Neighbour} (hid : s.contains neighbour.id = true) :
    ∃ n t, insert fields neighbour s = (.ok n, t) := by
  have hh : s.HoldsHeading fields := fun hd => nomatch hm.symm.trans hd
  have room := hasRoom_of_memory hm 1
  obtain ⟨C, l, b, r, old, rfl⟩ := h.exists_node hid
  cases neighbour with
  | before id =>
    obtain ⟨n, t, -, hrun, -⟩ :=
      (insert_before_outcome hs hh h).exists_done (fun _ hf => hf.2) (not_not_intro room)
    exact ⟨n, t, hrun⟩
  | after id =>
    obtain ⟨n, t, -, hrun, -⟩ :=
      (insert_after_outcome hs hh h).exists_done (fun _ hf => hf.2) (not_not_intro room)
    exact ⟨n, t, hrun⟩

theorem insert_agrees (hs : s.spoilt = false) (hm : s.medium = .memory) (h : s.Shows f)
    {fields : Fields} {neighbour : Neighbour} (hid : s.Nameable neighbour.id)
    (hheld : ∀ p ∈ (insert fields neighbour s).2.rows, p.Held) :
    Agrees inside (insert fields neighbour) (insert fields neighbour) s := by
  have hok : s.contains neighbour.id = true → _ := insert_ok_of_memory hs hm h fields
  have hn : ∀ (parent : Option Int) (position : Int), ((shifted 1
      ((s.children parent).reverse.filter fun p => position ≤ p.position)).map (·.id)).Nodup := by
    intro parent position
    rw [map_id_shifted]
    refine (List.filter_sublist.map _).nodup ?_
    rw [List.map_reverse, List.nodup_reverse]
    exact h.nodup_children parent
  cases neighbour with
  | before id =>
    refine lookup_agrees hm hid hok hheld fun p a t _ hrun hrows => ?_
    exact makeMoves_create_agrees hm hrun (hn _ _) hrows
  | after id =>
    refine lookup_agrees hm hid hok hheld fun p a t _ hrun hrows => ?_
    exact makeMoves_create_agrees hm hrun (hn _ _) hrows

/-- Moves and then an answer. -/
theorem makeMoves_pure_agrees (hm : s.medium = .memory) {moves : List Move} {a b : α}
    (hrun : (makeMoves moves >>= fun _ => pure a) s = (.ok b, t))
    (hn : (moves.map (·.id)).Nodup) (hheld : ∀ p ∈ t.rows, p.Held) :
    Agrees inside (makeMoves moves >>= fun _ => pure a)
      (makeMoves moves >>= fun _ => pure a) s := by
  obtain ⟨_, u, hmoves, hpure⟩ := bind_eq_ok hrun
  obtain rfl := (Prod.mk.inj hpure).2
  exact (makeMoves_agrees hm hmoves hn hheld).bind_pure fun _ => a

theorem indent_ok_of_memory (hs : s.spoilt = false) (hm : s.medium = .memory) (h : s.Shows f)
    {id : Int} (hid : s.contains id = true) : ∃ moved t, indent id s = (.ok moved, t) := by
  obtain ⟨C, l, b, r, fields, rfl⟩ := h.exists_node hid
  rcases eq_nil_or_append_tree l with rfl | ⟨l', q, qf, qb, rfl⟩
  · exact ⟨false, s, indent_first hs h⟩
  · rw [append_assoc, tree_append] at h
    obtain ⟨moved, t, -, hrun, -⟩ := (indent_outcome hs h).exists_done (fun _ hf => hf.2)
      fun hcramped => hcramped.1 (hasRoom_of_memory hm 0)
    exact ⟨moved, t, hrun⟩

theorem indent_agrees (hs : s.spoilt = false) (hm : s.medium = .memory) (h : s.Shows f)
    {id : Int} (hid : s.Nameable id) (hheld : ∀ p ∈ (indent id s).2.rows, p.Held) :
    Agrees inside (indent id) (indent id) s := by
  refine lookup_agrees hm hid (indent_ok_of_memory hs hm h) hheld fun p a t hp hrun hrows => ?_
  have hfind : (s.onDatabase true).children p.parent = s.children p.parent := rfl
  dsimp only at hrun ⊢
  rw [hfind]
  cases hprevious : (s.children p.parent).find? fun q => q.position == p.position - 1 with
  | none => exact .pure hm false
  | some previous =>
    rw [hprevious] at hrun
    refine makeMoves_pure_agrees hm hrun ?_ hrows
    rw [List.map_cons, map_id_shifted, List.nodup_cons]
    refine ⟨fun hmem => ?_, (List.filter_sublist.map _).nodup (h.nodup_children p.parent)⟩
    obtain ⟨hmp, rfl⟩ := get_eq_ok hp
    exact h.id_notMem_after hmp hmem

theorem outdent_ok_of_memory (hs : s.spoilt = false) (hm : s.medium = .memory) (h : s.Shows f)
    {id : Int} (hid : s.contains id = true) : ∃ moved t, outdent id s = (.ok moved, t) := by
  obtain ⟨C, l, b, r, fields, rfl⟩ := h.exists_node hid
  cases C with
  | top => exact ⟨false, s, outdent_top hs h⟩
  | under left p pf right outer =>
    obtain ⟨moved, t, -, hrun, -⟩ := (outdent_outcome hs h).exists_done (fun _ hf => hf.2)
      fun hcramped => hcramped.1 (hasRoom_of_memory hm 0)
    exact ⟨moved, t, hrun⟩

/-- The paragraphs that an outdent moves are different ones. -/
theorem Shows.nodup_outdent (h : s.Shows f) {p parent : Paragraph} (hp : p ∈ s.paragraphs)
    (hparent : parent ∈ s.paragraphs) (hpp : p.parent = some parent.id) (position : Int) :
    ((shifted 1 ((s.children parent.parent).filter fun q => parent.position < q.position) ++
      [(⟨p.id, parent.position + 1, parent.parent⟩ : Move)] ++
      placed p.id position ((s.children (some parent.id)).filter
        fun q => p.position < q.position)).map (·.id)).Nodup := by
  have hother : ∀ q ∈ s.children parent.parent, ∀ r ∈ s.children (some parent.id), q.id ≠ r.id := by
    intro q hq r hr he
    rw [mem_children] at hq hr
    obtain rfl := h.eq_of_id_eq hq.1 hr.1 he
    exact h.parent_ne_id hparent (hq.2.symm.trans hr.2)
  have hself : p ∈ s.children (some parent.id) := mem_children.2 ⟨hp, hpp⟩
  rw [List.map_append, List.map_append, map_id_shifted, map_id_placed, List.map_cons,
    List.map_nil, List.append_assoc, List.nodup_append, List.singleton_append, List.nodup_cons]
  refine ⟨(List.filter_sublist.map _).nodup (h.nodup_children _), ⟨?_,
    (List.filter_sublist.map _).nodup (h.nodup_children _)⟩, ?_⟩
  · rw [← hpp]
    exact h.id_notMem_after hp
  · intro i hi j hj
    obtain ⟨q, hq, rfl⟩ := List.mem_map.1 hi
    have hq := List.mem_of_mem_filter hq
    rcases List.mem_cons.1 hj with rfl | hj
    · exact hother q hq p hself
    · obtain ⟨r, hr, rfl⟩ := List.mem_map.1 hj
      exact hother q hq r (List.mem_of_mem_filter hr)

theorem outdent_agrees (hs : s.spoilt = false) (hm : s.medium = .memory) (h : s.Shows f)
    {id : Int} (hid : s.Nameable id) (hheld : ∀ p ∈ (outdent id s).2.rows, p.Held) :
    Agrees inside (outdent id) (outdent id) s := by
  refine lookup_agrees hm hid (outdent_ok_of_memory hs hm h) hheld fun p a t hp hrun hrows => ?_
  obtain ⟨hmp, rfl⟩ := get_eq_ok hp
  dsimp only at hrun ⊢
  cases hparent : p.parent with
  | none => exact .pure hm false
  | some parentId =>
    rw [hparent] at hrun
    dsimp only at hrun
    have hstored : s.contains parentId = true :=
      contains_iff_exists.2 (h.parent_stored hmp hparent)
    refine .lift_bind hm (get_onDatabase hm (.inl hstored)) fun parent hq => ?_
    rw [bind_ok (lift_ok hq)] at hrun
    obtain ⟨hmq, rfl⟩ := get_eq_ok hq
    exact makeMoves_pure_agrees hm hrun (h.nodup_outdent hmp hmq hparent _) hrows

/-! ## Removing -/

theorem delete_ok (hs : s.spoilt = false) (h : s.Shows f) {id : Int}
    (hid : s.contains id = true) : ∃ a t, delete id s = (.ok a, t) := by
  obtain ⟨C, l, b, r, fields, rfl⟩ := h.exists_node hid
  obtain ⟨a, t, -, hrun, -⟩ := (delete_outcome hs h).exists_done (fun _ hf => hf) not_false
  exact ⟨a, t, hrun⟩

/-- The query of a database finds the same subtree as the worklist. -/
theorem contains_subtreeIds_onDatabase (top id : Int) :
    ((s.onDatabase inside).subtreeIds top).contains id = (s.subtreeIds top).contains id := by
  rw [Bool.eq_iff_iff, List.contains_iff_mem, List.contains_iff_mem, mem_subtreeIds,
    mem_subtreeIds]
  exact Iff.rfl

theorem without_onDatabase (id : Int) :
    (s.onDatabase inside).without id = (s.without id).onDatabase inside := by
  unfold without
  simp only [contains_subtreeIds_onDatabase]
  rfl

theorem delete_agrees (hs : s.spoilt = false) (hm : s.medium = .memory) (h : s.Shows f)
    {id : Int} (hid : s.Nameable id) (hheld : ∀ p ∈ (delete id s).2.rows, p.Held) :
    Agrees inside (delete id) (delete id) s := by
  refine lookup_agrees hm hid (delete_ok hs h) hheld fun p a t hp hrun hrows => ?_
  have hwithout := deleteSubtree_ok hp
  have hwithout' : deleteSubtree id (s.onDatabase true) =
      (.ok (), (s.without id).onDatabase true) := by
    rw [← without_onDatabase]
    exact deleteSubtree_ok ((get_onDatabase hm hid).trans hp)
  refine .bind (.of_eq (t := s.without id) hm hwithout hwithout') fun _ u hu => ?_
  obtain rfl := (Prod.mk.inj (hwithout.symm.trans hu)).2
  rw [bind_ok hwithout] at hrun
  refine makeMoves_agrees (s := s.without id) hm hrun ?_ hrows
  rw [map_id_shifted]
  exact (List.filter_sublist.map _).nodup (h.nodup_children p.parent)

/-! ## Importing -/

/-- All rows of a store are still there in a later one of the same document. -/
structure Extends (s t : Store) : Prop where
  documentId_eq : t.documentId = s.documentId
  rows_le : s.rows <+: t.rows

namespace Extends

variable {u : Store}

theorem refl (s : Store) : s.Extends s := ⟨rfl, List.prefix_rfl⟩

theorem trans (h : s.Extends t) (h' : t.Extends u) : s.Extends u :=
  ⟨h'.documentId_eq.trans h.documentId_eq, h.rows_le.trans h'.rows_le⟩

theorem contains (h : s.Extends t) {id : Int} (hid : s.contains id = true) :
    t.contains id = true := by
  obtain ⟨p, hp, rfl⟩ := contains_iff_exists.1 hid
  obtain ⟨hp, hdoc⟩ := List.mem_filter.1 hp
  refine contains_iff_exists.2 ⟨p, List.mem_filter.2 ⟨h.rows_le.subset hp, ?_⟩, rfl⟩
  rwa [h.documentId_eq]

theorem nameable (h : s.Extends t) {id : Int} (hid : s.Nameable id) : t.Nameable id :=
  hid.imp_left h.contains

end Extends

/-- An operation in memory only adds rows. It agrees with the same operation on a database that can
hold all rows that it comes to. -/
structure Extending (inside : Bool) (x : StoreM α) (Q : α → Store → Prop) (s : Store) : Prop where
  extends_run : s.Extends (x s).2
  medium_eq : (x s).2.medium = .memory
  agrees : (∀ p ∈ (x s).2.rows, p.Held) → Agrees inside x x s
  answer : ∀ a t, x s = (.ok a, t) → Q a t

namespace Extending

variable {β : Type} {x : StoreM α} {f : α → StoreM β} {Q : α → Store → Prop}
  {R : β → Store → Prop}

theorem pure (hm : s.medium = .memory) {a : α} (ha : Q a s) :
    Extending inside (Pure.pure a : StoreM α) Q s := by
  refine ⟨.refl s, hm, fun _ => .pure hm a, fun b t h => ?_⟩
  cases h
  exact ha

theorem throw (hm : s.medium = .memory) (e : Fault) :
    Extending inside (MonadExcept.throw e : StoreM α) Q s :=
  ⟨.refl s, hm, fun _ => .throw hm e, fun _ _ h => nomatch h⟩

theorem bind (h : Extending inside x Q s)
    (hf : ∀ a t, s.Extends t → t.medium = .memory → Q a t → Extending inside (f a) R t) :
    Extending inside (x >>= f) R s := by
  obtain ⟨hext, hm, hagrees, hanswer⟩ := h
  rcases hx : x s with ⟨e | a, t⟩
  · rw [hx] at hext hm hagrees
    have hrun : (x >>= f) s = (.error e, t) := bind_error hx
    constructor <;> rw [hrun]
    · exact hext
    · exact hm
    · exact fun hheld => (hagrees hheld).bind fun _ _ h => nomatch hx.symm.trans h
    · exact fun _ _ h => nomatch h
  · rw [hx] at hext hm hagrees
    obtain ⟨hext', hm', hagrees', hanswer'⟩ := hf a t hext hm (hanswer a t hx)
    have hrun : (x >>= f) s = f a t := bind_ok hx
    constructor <;> rw [hrun]
    · exact hext.trans hext'
    · exact hm'
    · intro hheld
      refine (hagrees fun p hp => hheld p (hext'.rows_le.subset hp)).bind fun b u h => ?_
      obtain ⟨hb, rfl⟩ := Prod.mk.inj (hx.symm.trans h)
      cases hb
      exact hagrees' hheld
    · exact hanswer'

/-- Something is looked up first, the same on both media. -/
theorem lift_bind (hm : s.medium = .memory) {a : Except Fault α}
    (hf : ∀ b, Extending inside (f b) R s) : Extending inside (liftM a >>= f) R s := by
  refine bind (Q := fun _ t => t = s) ?_ fun b t _ _ ht => ht ▸ hf b
  have hrun : ∀ t, (liftM a : StoreM α) t = (a, t) := fun t => by cases a <;> rfl
  constructor <;> rw [hrun]
  · exact .refl s
  · exact hm
  · exact fun _ => .lift hm rfl
  · exact fun _ _ h => ((Prod.mk.inj h).2).symm

end Extending

theorem create_extending (hm : s.medium = .memory) {parent : Option Int} (position : Int)
    (fields : Fields) (hp : ∀ id, parent = some id → s.Nameable id) :
    Extending inside (create parent position fields) (fun id t => t.contains id = true) s := by
  rcases create_cases_of_memory hm parent position fields with hrun | ⟨e, hrun⟩
  · constructor <;> rw [hrun]
    · exact ⟨rfl, List.prefix_append _ _⟩
    · exact hm
    · intro hheld
      refine create_agrees hm hp fun n t h => ?_
      exact hheld _ (List.mem_append_right _ (List.mem_singleton_self _))
    · intro id t h
      cases h
      refine contains_iff_exists.2 ⟨row s.documentId parent position s.nextId fields, ?_, rfl⟩
      rw [paragraphs_added]
      exact List.mem_append_right _ (List.mem_singleton_self _)
  · constructor <;> rw [hrun]
    · exact .refl s
    · exact hm
    · exact fun _ => create_agrees hm hp fun _ _ h => nomatch hrun.symm.trans h
    · exact fun _ _ h => nomatch h

/-- The paragraph that a cursor is behind is there. -/
def Cursor.In (c : Cursor) (s : Store) : Prop := ∀ id, c.last = some id → s.contains id = true

theorem leaf_extending (hm : s.medium = .memory) {parent : Option Int} (c : Cursor)
    (hp : ∀ id, parent = some id → s.Nameable id) (v : Value) :
    Extending inside (do
      let fields ← Fields.ofText (← v.outlineText)
      let id ← create parent c.position fields
      return ([id], { position := c.position + 1, last := some id }) :
        StoreM (List Int × Cursor)) (fun a t => a.2.In t) s := by
  refine .lift_bind hm fun text => .lift_bind hm fun fields => ?_
  refine (create_extending hm c.position fields hp).bind fun id t _ hmt hid => .pure hmt ?_
  rintro _ ⟨⟩
  exact hid

theorem enter_extending (hm : s.medium = .memory) {c : Cursor} (hc : c.In s)
    (items : List Value) :
    Extending inside (enter c items) (fun a t => t.contains a.1 = true ∧ a.2.In t) s := by
  unfold enter
  cases hl : c.last with
  | none => exact .throw hm _
  | some id =>
    refine ⟨.refl s, hm, fun _ => .of_eq hm rfl rfl, fun a t h => ?_⟩
    cases h
    exact ⟨hc id hl, fun _ h => nomatch h⟩

theorem nested_extending (hm : s.medium = .memory) {c : Cursor} (hc : c.In s)
    (items : List Value) (run : Int → Cursor → StoreM (List Int))
    (hrun : ∀ id c' t, t.medium = .memory → t.Nameable id → c'.In t →
      Extending inside (run id c') (fun _ _ => True) t) :
    Extending inside (do
      let (id, c₁) ← enter c items
      return (← run id c₁, c) : StoreM (List Int × Cursor)) (fun a t => a.2.In t) s := by
  refine (enter_extending hm hc items).bind fun a t hst hmt ha => ?_
  refine (hrun a.1 a.2 t hmt (.inl ha.1) ha.2).bind fun _ u htu hmu _ => .pure hmu ?_
  exact fun id hid => (hst.trans htu).contains (hc id hid)

mutual

theorem importItem_extending (around : List (Nat × Value)) {s : Store} {parent : Option Int}
    {c : Cursor} (hm : s.medium = .memory) (hp : ∀ id, parent = some id → s.Nameable id)
    (hc : c.In s) : (v : Value) →
    Extending inside (importItem around parent c v) (fun a t => a.2.In t) s
  | .list items => by
    unfold importItem
    exact nested_extending hm hc _ (fun id c₁ => importItems around (some id) c₁ items)
      fun _ _ _ hmt hid hc' =>
        importItems_extending around hmt (by rintro _ ⟨⟩; exact hid) hc' items
  | .tuple items => by
    unfold importItem
    exact nested_extending hm hc _ (fun id c₁ => importItems around (some id) c₁ items)
      fun _ _ _ hmt hid hc' =>
        importItems_extending around hmt (by rintro _ ⟨⟩; exact hid) hc' items
  | .loop _ v => importItem_extending _ hm hp hc v
  | .again _ => (enter_extending hm hc _).bind fun _ _ _ hmt _ => .throw hmt _
  | .null => leaf_extending hm c hp .null
  | .bool b => leaf_extending hm c hp (.bool b)
  | .int n => leaf_extending hm c hp (.int n)
  | .float x => leaf_extending hm c hp (.float x)
  | .text t => leaf_extending hm c hp (.text t)
  | .dict entries => leaf_extending hm c hp (.dict entries)
  | .set items => leaf_extending hm c hp (.set items)
  | .constant v => leaf_extending hm c hp (.constant v)
  | .date d => leaf_extending hm c hp (.date d)
  | .moment t => leaf_extending hm c hp (.moment t)
  | .bytes bs => leaf_extending hm c hp (.bytes bs)

theorem importItems_extending (around : List (Nat × Value)) {s : Store} {parent : Option Int}
    {c : Cursor} (hm : s.medium = .memory) (hp : ∀ id, parent = some id → s.Nameable id)
    (hc : c.In s) : (items : List Value) →
    Extending inside (importItems around parent c items) (fun _ _ => True) s
  | [] => .pure hm trivial
  | v :: rest =>
    (importItem_extending around hm hp hc v).bind fun _ _ hst hmt hct =>
      (importItems_extending around hmt (fun id hid => hst.nameable (hp id hid)) hct rest).bind
        fun _ _ _ hmu _ => .pure hmu trivial

end

/-- What an import does within its transaction. -/
def importing (outline : Value) (parent : Option Int) : StoreM (List Int) :=
  match outline.members? with
  | none => throw (.notIterable outline.fullKind)
  | some items => do
    let s ← MonadState.get
    importItems [] parent { position := ← s.nextPosition parent } items

theorem importOutline_eq (outline : Value) (parent : Option Int) :
    importOutline outline parent = transaction (importing outline parent) := rfl

theorem importing_agrees (hm : s.medium = .memory) (outline : Value) {parent : Option Int}
    (hp : ∀ id, parent = some id → s.Nameable id)
    (hheld : ∀ p ∈ (importing outline parent s).2.rows, p.Held) :
    Agrees inside (importing outline parent) (importing outline parent) s := by
  unfold importing at hheld ⊢
  cases hitems : outline.members? with
  | none => exact .throw hm _
  | some items =>
    rw [hitems] at hheld
    refine .get_bind (.lift_bind hm (nextPosition_onDatabase hm hp) fun position hn => ?_)
    dsimp only at hheld
    rw [bind_ok get_run, bind_ok (lift_ok hn)] at hheld
    have hc : Cursor.In { position } s := fun _ h => nomatch h
    exact (importItems_extending [] hm hp hc items).agrees hheld

/-- In an open transaction an import must not fail after it has made something. -/
theorem importOutline_agrees (hm : s.medium = .memory) (outline : Value) {parent : Option Int}
    (hp : ∀ id, parent = some id → s.Nameable id)
    (hheld : ∀ p ∈ (importing outline parent s).2.rows, p.Held)
    (hin : inside = true → isFault (importing outline parent s).1 = true →
      (importing outline parent s).2.rows = s.rows) :
    Agrees inside (importOutline outline parent) (importOutline outline parent) s :=
  .transaction hm (importing_agrees hm outline hp hheld) hin

end Bylaws.Store
