import Bylaws.Proofs.Forest.Media
import Bylaws.Proofs.Session.Runs

/-!
# Importing one outline after another

Importing one outline and then another below the same paragraph comes to the same store, under the
same ids, as importing the two in a row (`importOutline_append`). The second import starts with no
paragraph made, where the import in a row has the last one of the first outline; since the second
one succeeds, its first element is not a list, and the difference does not matter
(`importItems_of_none`). In memory an outline that can be imported into an empty document can be
imported below every paragraph that is there, so that two such outlines can be imported in a row
(`Importable.append`).
-/

namespace Bylaws.Store

open Forest

variable {s t u : Store} {f : Forest} {parent : Option Int} {ids ids' : List Int}
  {items items' : List Value}

/-! ## The paragraph made before -/

/-- Without a paragraph made before no list can be entered. -/
theorem enter_none_bind {α : Type} {position : Int} {a : α} {next : Int × Cursor → StoreM α} :
    (enter { position } items >>= next) s ≠ (.ok a, t) := fun h => nomatch h

/-- What succeeds with no paragraph made before does the same after any paragraph. -/
theorem importItem_of_none {position : Int} {a : List Int × Cursor} (last : Option Int) :
    ∀ (around : List (Nat × Value)) (v : Value),
      importItem around parent { position } v s = (.ok a, t) →
        importItem around parent { position, last } v s = (.ok a, t)
  | _, .list _ => fun h => by
    unfold importItem at h
    exact absurd h enter_none_bind
  | _, .tuple _ => fun h => by
    unfold importItem at h
    exact absurd h enter_none_bind
  | _, .loop _ v => importItem_of_none last _ v
  | _, .again _ => fun h => by
    unfold importItem at h
    exact absurd h enter_none_bind
  | _, .null => id
  | _, .bool _ => id
  | _, .int _ => id
  | _, .float _ => id
  | _, .text _ => id
  | _, .dict _ => id
  | _, .set _ => id
  | _, .constant _ => id
  | _, .date _ => id
  | _, .moment _ => id
  | _, .bytes _ => id

theorem importItems_of_none {around : List (Nat × Value)} {position : Int} (last : Option Int)
    (h : importItems around parent { position } items s = (.ok ids, t)) :
    importItems around parent { position, last } items s = (.ok ids, t) := by
  cases items with
  | nil => exact h
  | cons v rest =>
    obtain ⟨⟨ids₁, c⟩, u, h₁, k₁⟩ := bind_eq_ok h
    show (importItem around parent { position, last } v >>= _) s = _
    rw [bind_ok (importItem_of_none last around v h₁)]
    exact k₁

/-! ## Two lists in a row -/

/-- The elements of one list are imported after those of another, from where these end. -/
theorem importItems_append {around : List (Nat × Value)} {C : Hole} {g : Forest} {c : Cursor}
    (hs : s.spoilt = false) (hi : s.medium = .database → s.inTransaction = true)
    (h : s.Shows (C.plug g)) (hc : c.At g)
    (h₁ : importItems around C.parent c items s = (.ok ids, t))
    (h₂ : importItems around C.parent { position := t.childCount C.parent + 1 } items' t =
      (.ok ids', u)) :
    importItems around C.parent c (items ++ items') s = (.ok (ids ++ ids'), u) := by
  induction items generalizing s g c ids with
  | nil =>
    obtain ⟨rfl, rfl⟩ : ids = [] ∧ t = s := by
      cases h₁
      exact ⟨rfl, rfl⟩
    have hposition : (t.childCount C.parent : Int) + 1 = c.position := by
      rw [h.childCount_eq, hc.position_eq, Int.add_comm]
    rw [hposition] at h₂
    exact importItems_of_none c.last h₂
  | cons v rest ih =>
    obtain ⟨⟨idsv, c'⟩, s', hv, k₁⟩ := bind_eq_ok h₁
    obtain ⟨idsr, _, hr, k₂⟩ := bind_eq_ok k₁
    cases k₂
    have ho := importItem_outcome around hs hi h hc v
    rw [hv] at ho
    cases ho with
    | done hfol hs' hf' hd =>
      obtain ⟨g', rfl, hc', -⟩ := hd
      show (importItem around C.parent c v >>= fun a =>
        importItems around C.parent a.2 (rest ++ items') >>= fun more => pure (a.1 ++ more)) s = _
      rw [bind_ok hv, bind_ok (ih hs' (hfol.inTransaction hi) hf' hc' hr), List.append_assoc]
      rfl

/-! ## Two transactions -/

/-- A transaction that has been committed is taken up where it was closed. -/
theorem opened_closed (h : s.opened.Follows t) (ht : t.spoilt = false) :
    (closed false s t).opened = t := by
  have hm : t.medium = s.medium := h.medium_eq.trans (medium_opened s)
  have hi := h.inTransaction_eq
  obtain ⟨medium, doc, rows, nextId, inTransaction, spoilt⟩ := t
  obtain rfl : spoilt = false := ht
  obtain rfl : medium = s.medium := hm
  unfold closed opened at *
  cases hmed : s.medium with
  | memory => simp
  | database => cases hint : s.inTransaction <;> simp_all

/-- What a transaction leaves does not depend on the rows that it began with if it is committed. -/
theorem closed_eq_of_follows (h : s.Follows t) (hu : u.spoilt = false) :
    closed false t u = closed false s u := by
  unfold closed
  rw [h.medium_eq, h.inTransaction_eq]
  cases s.medium <;> cases s.inTransaction <;> simp [hu]

/-- An import below a paragraph that is there begins after all that lies below it. -/
theorem importing_eq {C : Hole} {g : Forest} (h : s.Shows (C.plug g)) (items : List Value) :
    importing (.list items) C.parent s =
      importItems [] C.parent { position := s.childCount C.parent + 1 } items s := by
  show (MonadState.get >>= fun s => liftM (s.nextPosition C.parent) >>=
    fun position => importItems [] C.parent { position } items) s = _
  rw [bind_ok get_run, bind_ok (lift_ok h.nextPosition_eq), h.childCount_eq, Int.add_comm]

theorem cursor_at_end {C : Hole} {g : Forest} (h : s.Shows (C.plug g)) :
    Cursor.At { position := s.childCount C.parent + 1 } g where
  position_eq := by rw [h.childCount_eq, Int.add_comm]
  last_eq := nofun

/-- An import that succeeds has done so in a transaction that is taken up where it was closed. -/
theorem importOutline_list_eq_ok {C : Hole} {g : Forest} (hs : s.spoilt = false)
    (h : s.Shows (C.plug g)) (hrun : importOutline (.list items) C.parent s = (.ok ids, t)) :
    importing (.list items) C.parent s.opened = (.ok ids, t.opened) ∧
      closed false s t.opened = t ∧ s.Follows t ∧ t.spoilt = false ∧ ∃ g', t.Shows (C.plug g') := by
  rcases hb : importing (.list items) C.parent s.opened with ⟨r, t'⟩
  rw [importOutline_eq, transaction_eq hb] at hrun
  obtain ⟨rfl, rfl⟩ := Prod.mk.inj hrun
  have ho := importOutline_outcome hs h (.list items)
  rw [importOutline_eq, transaction_eq hb] at ho
  have hbody := importItems_outcome [] ((spoilt_opened s).trans hs) (opened_inTransaction s)
    h.opened (cursor_at_end h.opened) items
  rw [← importing_eq h.opened, hb] at hbody
  cases hbody with
  | done hfol hs' _ _ =>
    cases ho with
    | done hfollows hspoilt hf' hd =>
      obtain ⟨g', rfl, -⟩ := hd
      have htaken : (closed false s t').opened = t' := opened_closed hfol hs'
      exact ⟨congrArg _ htaken.symm, congrArg _ htaken, hfollows, hspoilt, g', hf'⟩

/-- Below a paragraph that is not there only the empty outline can be imported. -/
theorem eq_nil_of_importOutline {i : Int} (hi : ¬ s.contains i = true)
    (h : importOutline (.list items) (some i) s = (.ok ids, t)) : items = [] := by
  cases items with
  | nil => rfl
  | cons v rest =>
    obtain ⟨u, hb, -⟩ := transaction_eq_ok h
    obtain ⟨_, _, h₁, k₁⟩ := bind_eq_ok hb
    cases h₁
    obtain ⟨position, _, h₂, k₂⟩ := bind_eq_ok k₁
    obtain ⟨-, rfl⟩ := lift_eq_ok h₂
    obtain ⟨_, _, h₃, -⟩ := bind_eq_ok k₂
    obtain ⟨e, he⟩ := importItem_missing (contains_opened s i ▸ hi) position [] v
    exact nomatch he.symm.trans h₃

/-- Importing two outlines one after the other comes to the same as importing them in a row. -/
theorem importOutline_append (hs : s.spoilt = false) (h : s.Shows f)
    (h₁ : importOutline (.list items) parent s = (.ok ids, t))
    (h₂ : importOutline (.list items') parent t = (.ok ids', u)) :
    importOutline (.list (items ++ items')) parent s = (.ok (ids ++ ids'), u) := by
  by_cases hp : ∀ id, parent = some id → s.contains id = true
  · obtain ⟨C, g, rfl, rfl⟩ := h.exists_scope hp
    obtain ⟨hb, -, hfol, ht, g', hf'⟩ := importOutline_list_eq_ok hs h h₁
    obtain ⟨hb', hu, -, hspoilt, -⟩ := importOutline_list_eq_ok ht hf' h₂
    rw [importing_eq h.opened] at hb
    rw [importing_eq hf'.opened] at hb'
    have hrow := importItems_append ((spoilt_opened s).trans hs) (opened_inTransaction s) h.opened
      (cursor_at_end h.opened) hb hb'
    rw [← importing_eq h.opened] at hrow
    rw [importOutline_eq, transaction_eq hrow]
    show (_, closed false s u.opened) = _
    rw [← closed_eq_of_follows hfol ((spoilt_opened u).trans hspoilt), hu]
  · simp only [not_forall] at hp
    obtain ⟨i, rfl, hi⟩ := hp
    obtain rfl := eq_nil_of_importOutline hi h₁
    obtain ⟨r, hr, hids⟩ := importOutline_missing hs hi (.list [])
    obtain ⟨rfl, rfl⟩ := Prod.mk.inj (hr.symm.trans h₁)
    rw [hids ids rfl]
    exact h₂

/-! ## What can be imported -/

/-- A list is entered after a paragraph, and begins with none made in it. -/
theorem last_of_enter {c : Cursor} {a : Int × Cursor} (h : enter c items s = (.ok a, t)) :
    c.last.isSome = true ∧ a.2.last = none := by
  unfold enter at h
  cases hl : c.last with
  | none =>
    rw [hl] at h
    exact nomatch h
  | some id =>
    rw [hl] at h
    cases h
    exact ⟨rfl, rfl⟩

section Anywhere

variable {C : Hole} {g : Forest} {c c' : Cursor}

theorem leaf_anywhere (hm : t.medium = .memory) (h : t.Shows (C.plug g)) {v : Value}
    {a : List Int × Cursor}
    (hrun : (do
      let fields ← Fields.ofText (← v.outlineText)
      let id ← create parent c'.position fields
      return ([id], { position := c'.position + 1, last := some id }) :
        StoreM (List Int × Cursor)) s = (.ok a, u)) :
    ∃ b w, (do
      let fields ← Fields.ofText (← v.outlineText)
      let id ← create C.parent c.position fields
      return ([id], { position := c.position + 1, last := some id }) :
        StoreM (List Int × Cursor)) t = (.ok b, w) ∧
      (a.2.last.isSome = true → b.2.last.isSome = true) := by
  obtain ⟨text, _, h₁, k₁⟩ := bind_eq_ok hrun
  obtain ⟨htext, rfl⟩ := lift_eq_ok h₁
  obtain ⟨fields, _, h₂, -⟩ := bind_eq_ok k₁
  obtain ⟨hfields, rfl⟩ := lift_eq_ok h₂
  have hcan : t.canHold c.position fields.heading = true := by
    unfold canHold
    rw [hm]
  rw [bind_ok (lift_ok htext), bind_ok (lift_ok hfields),
    bind_ok (create_ok (fun _ hid => h.contains_of_parent hid) hcan)]
  exact ⟨_, _, rfl, fun _ => rfl⟩

theorem nested_anywhere (hs : t.spoilt = false) (h : t.Shows (C.plug g)) (hc : c.At g)
    (hl : c'.last.isSome = true → c.last.isSome = true) {a : List Int × Cursor}
    (run run' : Int → Cursor → StoreM (List Int))
    (hrun : ∀ {C' : Hole} {b : Forest} {c₁ c₂ : Cursor} {id i : Int} {ids : List Int},
      t.Shows (C'.plug b) → c₁.At b → C'.parent = some id → c₂.last = none →
      run' i c₂ s = (.ok ids, u) → ∃ ids' w, run id c₁ t = (.ok ids', w))
    (h' : (do
      let (id, c₁) ← enter c' items
      return (← run' id c₁, c') : StoreM (List Int × Cursor)) s = (.ok a, u)) :
    ∃ b w, (do
      let (id, c₁) ← enter c items
      return (← run id c₁, c) : StoreM (List Int × Cursor)) t = (.ok b, w) ∧
      (a.2.last.isSome = true → b.2.last.isSome = true) := by
  obtain ⟨⟨i, c₂⟩, _, h₁, k₁⟩ := bind_eq_ok h'
  obtain rfl := enter_eq_ok h₁
  obtain ⟨ids, _, h₂, k₂⟩ := bind_eq_ok k₁
  cases k₂
  obtain ⟨hlast, hfirst⟩ := last_of_enter h₁
  have ho := enter_outcome hs h hc items
  obtain ⟨id, hid⟩ := Option.isSome_iff_exists.1 (hl hlast)
  rcases henter : enter c items t with ⟨r, w⟩
  rw [henter] at ho
  cases ho with
  | done _ _ hf' hd =>
    obtain rfl := enter_eq_ok henter
    obtain ⟨rfl, -, g', fields, b, rfl, hin⟩ := hd
    obtain ⟨ids', w, hrun'⟩ := hrun hf'.under hin rfl hfirst h₂
    rw [bind_ok henter]
    dsimp only
    rw [bind_ok hrun']
    exact ⟨_, _, rfl, hl⟩
  | failed _ _ _ _ =>
    unfold enter at henter
    rw [hid] at henter
    exact nomatch henter
  | spoilt _ _ _ _ _ =>
    unfold enter at henter
    rw [hid] at henter
    exact nomatch henter

mutual

/-- An element that becomes paragraphs in one place does so in any place in memory, if a list can be
entered there too. -/
theorem importItem_anywhere (around : List (Nat × Value)) {s t u : Store} {parent : Option Int}
    {C : Hole} {g : Forest} {c c' : Cursor} {a : List Int × Cursor} (hm : t.medium = .memory)
    (hs : t.spoilt = false) (h : t.Shows (C.plug g)) (hc : c.At g)
    (hl : c'.last.isSome = true → c.last.isSome = true) :
    (v : Value) → importItem around parent c' v s = (.ok a, u) →
      ∃ b w, importItem around C.parent c v t = (.ok b, w) ∧
        (a.2.last.isSome = true → b.2.last.isSome = true)
  | .list items => fun hrun => by
    unfold importItem at hrun ⊢
    refine nested_anywhere hs h hc hl (fun id c₁ => importItems around (some id) c₁ items)
      (fun id c₁ => importItems around (some id) c₁ items) (fun hf' hc' hp hn hr => ?_) hrun
    exact hp ▸ importItems_anywhere around hm hs hf' hc' (by simp [hn]) items hr
  | .tuple items => fun hrun => by
    unfold importItem at hrun ⊢
    refine nested_anywhere hs h hc hl (fun id c₁ => importItems around (some id) c₁ items)
      (fun id c₁ => importItems around (some id) c₁ items) (fun hf' hc' hp hn hr => ?_) hrun
    exact hp ▸ importItems_anywhere around hm hs hf' hc' (by simp [hn]) items hr
  | .loop _ v => importItem_anywhere _ hm hs h hc hl v
  | .again _ => fun hrun => by
    obtain ⟨_, _, -, k₁⟩ := bind_eq_ok hrun
    exact nomatch k₁
  | .null => leaf_anywhere hm h
  | .bool _ => leaf_anywhere hm h
  | .int _ => leaf_anywhere hm h
  | .float _ => leaf_anywhere hm h
  | .text _ => leaf_anywhere hm h
  | .dict _ => leaf_anywhere hm h
  | .set _ => leaf_anywhere hm h
  | .constant _ => leaf_anywhere hm h
  | .date _ => leaf_anywhere hm h
  | .moment _ => leaf_anywhere hm h
  | .bytes _ => leaf_anywhere hm h

theorem importItems_anywhere (around : List (Nat × Value)) {s t u : Store} {parent : Option Int}
    {C : Hole} {g : Forest} {c c' : Cursor} {ids : List Int} (hm : t.medium = .memory)
    (hs : t.spoilt = false) (h : t.Shows (C.plug g)) (hc : c.At g)
    (hl : c'.last.isSome = true → c.last.isSome = true) :
    (items : List Value) → importItems around parent c' items s = (.ok ids, u) →
      ∃ ids' w, importItems around C.parent c items t = (.ok ids', w)
  | [] => fun _ => ⟨[], t, rfl⟩
  | v :: rest => fun hrun => by
    obtain ⟨⟨ids₁, c₁⟩, s', h₁, k₁⟩ := bind_eq_ok hrun
    obtain ⟨ids₂, _, h₂, -⟩ := bind_eq_ok k₁
    obtain ⟨⟨ids₁', c₂⟩, t', hitem, hlast⟩ := importItem_anywhere around hm hs h hc hl v h₁
    have ho := importItem_outcome around hs (fun hdb => nomatch hm.symm.trans hdb) h hc v
    rw [hitem] at ho
    cases ho with
    | done hfol hs' hf' hd =>
      obtain ⟨g', rfl, hc', -⟩ := hd
      obtain ⟨ids₂', w, hitems⟩ :=
        importItems_anywhere around (hfol.medium_eq.trans hm) hs' hf' hc' hlast rest h₂
      refine ⟨ids₁' ++ ids₂', w, ?_⟩
      show (importItem around C.parent c v >>= fun a =>
        importItems around C.parent a.2 rest >>= fun ids => pure (a.1 ++ ids)) t = _
      rw [bind_ok hitem, bind_ok hitems]
      rfl

end

/-- An outline that can be imported into an empty document in memory. -/
def Importable (items : List Value) : Prop :=
  ∃ documentId ids t, importOutline (.list items) none { documentId } = (.ok ids, t)

/-- In memory such an outline can be imported at the end of every place. -/
theorem Importable.exists_import (hi : Importable items) (hm : s.medium = .memory)
    (hs : s.spoilt = false) (h : s.Shows (C.plug g)) :
    ∃ ids t, importOutline (.list items) C.parent s = (.ok ids, t) := by
  obtain ⟨documentId, ids, u, hrun⟩ := hi
  have hempty : Shows { documentId } (Hole.top.plug nil) := (fresh_empty .memory documentId).shows
  obtain ⟨hb, -⟩ := importOutline_list_eq_ok (C := .top) rfl hempty hrun
  rw [importing_eq hempty.opened] at hb
  obtain ⟨ids', t, hitems⟩ : ∃ ids' t, importItems [] C.parent
      { position := s.opened.childCount C.parent + 1 } items s.opened = (.ok ids', t) := by
    refine importItems_anywhere [] ((medium_opened s).trans hm) ((spoilt_opened s).trans hs)
      h.opened (cursor_at_end h.opened) ?_ items hb
    exact nofun
  rw [← importing_eq h.opened] at hitems
  rw [importOutline_eq, transaction_eq hitems]
  exact ⟨ids', _, rfl⟩

/-- Two such outlines can be imported one after the other, and in a row. -/
theorem Importable.append (hi : Importable items) (hi' : Importable items')
    (hm : s.medium = .memory) (hs : s.spoilt = false) (h : s.Shows (C.plug g)) :
    ∃ ids ids' t u, importOutline (.list items) C.parent s = (.ok ids, t) ∧
      importOutline (.list items') C.parent t = (.ok ids', u) ∧
      importOutline (.list (items ++ items')) C.parent s = (.ok (ids ++ ids'), u) := by
  obtain ⟨ids, t, h₁⟩ := hi.exists_import hm hs h
  obtain ⟨-, -, hfol, ht, g', hf'⟩ := importOutline_list_eq_ok hs h h₁
  obtain ⟨ids', u, h₂⟩ := hi'.exists_import (hfol.medium_eq.trans hm) ht hf'
  exact ⟨ids, ids', t, u, h₁, h₂, importOutline_append hs h h₁ h₂⟩

end Anywhere

end Bylaws.Store
