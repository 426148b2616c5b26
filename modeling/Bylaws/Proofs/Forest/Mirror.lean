import Bylaws.Proofs.Store.Mirror

/-!
# The same edits under other ids

An edit of one of two stores that mirror one another, and the same edit of the other one with the
ids that it is given renamed, are twins. An id that names nothing in the one store may be given as
any id that names nothing in the other.
-/

namespace Bylaws

open Forest

namespace Store

variable {lenient : Prop} {names : List (Int × Int)} {ρ : Int → Int} {s s' t t' : Store}
  {f g : Forest} {C : Hole}

/-! ## Moves under other ids -/

theorem shifted_rename (offset : Int) (ps : List Paragraph) :
    shifted offset (ps.map (Paragraph.rename ρ)) = (shifted offset ps).map (Move.rename ρ) := by
  unfold shifted
  rw [List.map_map, List.map_map]
  rfl

theorem placed_rename (parent position : Int) (ps : List Paragraph) :
    placed (ρ parent) position (ps.map (Paragraph.rename ρ)) =
      (placed parent position ps).map (Move.rename ρ) := by
  induction ps generalizing position with
  | nil => rfl
  | cons p ps ih =>
    rw [List.map_cons, placed, ih, placed, List.map_cons]
    rfl

theorem filter_position_rename (q : Int → Bool) (ps : List Paragraph) :
    (ps.map (Paragraph.rename ρ)).filter (fun p => q p.position) =
      (ps.filter fun p => q p.position).map (Paragraph.rename ρ) := List.filter_map ..

/-- Stored paragraphs can be shifted. -/
theorem Shows.ready_shifted (h : s.Shows f) (offset : Int) {ps : List Paragraph}
    (hps : ∀ p ∈ ps, p ∈ s.paragraphs) : s.Ready (shifted offset ps) := by
  intro m hm
  obtain ⟨p, hp, rfl⟩ := List.mem_map.1 hm
  refine ⟨contains_iff_exists.2 ⟨p, hps p hp, rfl⟩, fun id hid => ?_⟩
  exact contains_iff_exists.2 (h.parent_stored (hps p hp) hid)

theorem ready_placed {parent : Int} (hparent : s.contains parent = true) (position : Int)
    {ps : List Paragraph} (hps : ∀ p ∈ ps, p ∈ s.paragraphs) :
    s.Ready (placed parent position ps) := by
  induction ps generalizing position with
  | nil => exact fun m hm => absurd hm List.not_mem_nil
  | cons p ps ih =>
    rw [List.forall_mem_cons] at hps
    refine List.forall_mem_cons.2 ⟨⟨contains_iff_exists.2 ⟨p, hps.1, rfl⟩, ?_⟩, ih _ hps.2⟩
    rintro id ⟨⟩
    exact hparent

theorem mem_of_mem_children_filter {parent : Option Int} {q : Paragraph → Bool} :
    ∀ p ∈ (s.children parent).filter q, p ∈ s.paragraphs :=
  fun _ hp => (mem_children.1 (List.mem_of_mem_filter hp)).1

/-! ## Names in an open transaction -/

theorem Named.opened {i j : Int} (hn : Named names ρ s t i j) :
    Named names ρ s.opened t.opened i j := by
  cases hn with
  | stored hi hj => exact .stored ((contains_opened s i).trans hi) hj
  | missing hnames hi hj ht =>
    exact .missing hnames ((contains_opened s i).trans hi) ((contains_opened t j).trans hj) ht

theorem Placed.opened {parent parent' : Option Int} (hn : Placed names ρ s t parent parent') :
    Placed names ρ s.opened t.opened parent parent' := by
  cases hn with
  | top => exact .top
  | under hn => exact .under hn.opened

/-- The parent of a place in a forest. -/
theorem Shows.placed_hole (hf : s.Shows (C.plug g)) :
    Placed names ρ s t C.parent (C.parent.map ρ) := by
  cases hparent : C.parent with
  | none => exact .top
  | some i => exact .under (.stored (hf.contains_of_parent hparent) rfl)

/-- A neighbour is named in two stores. -/
inductive Neighbour.Named (names : List (Int × Int)) (ρ : Int → Int) (s t : Store) :
    Neighbour → Neighbour → Prop where
  | before {i j : Int} : Store.Named names ρ s t i j → Named names ρ s t (.before i) (.before j)
  | after {i j : Int} : Store.Named names ρ s t i j → Named names ρ s t (.after i) (.after j)

/-! ## Single edits -/

section Edits

variable (hρ : StrictMono ρ) (h : Mirrors lenient ρ s t) (hf : s.Shows f)

include hρ h

/-- An edit that looks up a paragraph first. -/
theorem lookup_twin {α β : Type} {R : α → β → Prop} {i j : Int} (hn : Named names ρ s t i j)
    {k : Store → Paragraph → StoreM α} {l : Store → Paragraph → StoreM β}
    (hkl : ∀ p ∈ s.opened.paragraphs, p.id = i → ρ p.id = j →
      Twin lenient names ρ R (k s.opened p s.opened) (l t.opened (p.rename ρ) t.opened)) :
    Twin lenient names ρ R
      ((MonadState.get >>= fun s => liftM (s.get i) >>= k s) s.opened)
      ((MonadState.get >>= fun t => liftM (t.get j) >>= l t) t.opened) := by
  refine .get_bind (.lift_bind (hn.opened.get hρ h.opened.toResembles) h.opened ?_)
  rintro p _ hp hq rfl
  obtain ⟨hmem, hid⟩ := get_eq_ok hp
  exact hkl p hmem hid (get_eq_ok hq).2

include hf

theorem append_twin {parent parent' : Option Int} (hn : Placed names ρ s t parent parent')
    (fields : Fields) :
    Twin lenient names ρ (fun i j => j = ρ i) (append fields parent s)
      (append fields parent' t) := by
  refine .transaction h
    (.bind .get fun _ => .bind (.lift _) fun _ => .create _ _ _)
    (.bind .get fun _ => .bind (.lift _) fun _ => .create _ _ _) ?_
  refine .get_bind
    (.lift_bind (hn.opened.nextPosition hρ h.opened.toResembles hf.opened) h.opened ?_)
  rintro position _ - - rfl
  exact create_twin hρ hn.opened h.opened position fields

/-- The siblings from a position on make room, and a paragraph is put there. -/
theorem makeRoom_twin {p : Paragraph} (hp : p ∈ s.paragraphs) (position : Int) (fields : Fields) :
    Twin lenient names ρ (fun i j => j = ρ i)
      ((do
        makeMoves (shifted 1 ((s.children p.parent).reverse.filter
          fun q => position ≤ q.position))
        create p.parent position fields : StoreM Int) s)
      ((do
        makeMoves (shifted 1 ((t.children (p.rename ρ).parent).reverse.filter
          fun q => position ≤ q.position))
        create (p.rename ρ).parent position fields : StoreM Int) t) := by
  have hmoves : shifted 1 ((t.children (p.rename ρ).parent).reverse.filter
      fun q => position ≤ q.position) = (shifted 1 ((s.children p.parent).reverse.filter
        fun q => position ≤ q.position)).map (Move.rename ρ) := by
    rw [Paragraph.rename_parent, h.children_eq hρ, ← List.map_reverse,
      filter_position_rename (fun k => position ≤ k), shifted_rename]
  have hready : s.Ready (shifted 1 ((s.children p.parent).reverse.filter
      fun q => position ≤ q.position)) := by
    refine hf.ready_shifted 1 fun q hq => ?_
    exact (mem_children.1 (List.mem_reverse.1 (List.mem_of_mem_filter hq))).1
  rw [hmoves]
  refine (makeMoves_twin hρ h hready).bind fun _ _ s' t' hs _ _ hm => ?_
  obtain rfl := makeMoves_eq_ok hs
  refine create_twin hρ ?_ hm position fields
  rw [Paragraph.rename_parent]
  cases hparent : p.parent with
  | none => exact .top
  | some i =>
    refine .under (.stored ?_ rfl)
    rw [contains_relocate]
    exact contains_iff_exists.2 (hf.parent_stored hp hparent)

theorem insert_twin {n n' : Neighbour} (hn : n.Named names ρ s t n') (fields : Fields) :
    Twin lenient names ρ (fun i j => j = ρ i) (insert fields n s) (insert fields n' t) := by
  have hbuilt : ∀ (s : Store) (position : Int) (p : Paragraph), Built (do
      makeMoves (shifted 1 ((s.children p.parent).reverse.filter fun q => position ≤ q.position))
      create p.parent position fields) := fun _ _ _ =>
    .bind (makeMoves_built _) fun _ => .create _ _ _
  cases hn with
  | @before i j hn =>
    refine .transaction h
      (.bind .get fun s => .bind (.lift _) fun p => hbuilt s p.position p)
      (.bind .get fun t => .bind (.lift _) fun p => hbuilt t p.position p)
      (lookup_twin hρ h hn fun p hp _ _ => ?_)
    exact makeRoom_twin hρ h.opened hf.opened hp p.position fields
  | @after i j hn =>
    refine .transaction h
      (.bind .get fun s => .bind (.lift _) fun p => hbuilt s (p.position + 1) p)
      (.bind .get fun t => .bind (.lift _) fun p => hbuilt t (p.position + 1) p)
      (lookup_twin hρ h hn fun p hp _ _ => ?_)
    exact makeRoom_twin hρ h.opened hf.opened hp (p.position + 1) fields

theorem indent_twin {i j : Int} (hn : Named names ρ s t i j) :
    Twin lenient names ρ Eq (indent i s) (indent j t) := by
  refine .transaction h (.bind .get fun _ => .bind (.lift _) fun _ => ?_)
    (.bind .get fun _ => .bind (.lift _) fun _ => ?_) (lookup_twin hρ h hn fun p hp hi hj => ?_)
  -- Both operations are made of the same parts.
  iterate 2
    · dsimp only
      split
      · exact .pure false
      · exact .bind (makeMoves_built _) fun _ => .pure true
  have hchildren := h.opened.children_eq hρ p.parent
  have hfind : (t.opened.children (p.rename ρ).parent).find?
        (fun q => q.position == (p.rename ρ).position - 1) =
      ((s.opened.children p.parent).find? fun q => q.position == p.position - 1).map
        (Paragraph.rename ρ) := by
    rw [Paragraph.rename_parent, hchildren, List.find?_map]
    rfl
  rw [hfind]
  cases hprevious : (s.opened.children p.parent).find? fun q => q.position == p.position - 1 with
  | none => exact .ok rfl h.opened
  | some previous =>
    obtain ⟨hprev, -⟩ := mem_children.1 (List.mem_of_find?_eq_some hprevious)
    have hcount : t.opened.childCount (some (previous.rename ρ).id) =
        s.opened.childCount (some previous.id) := h.opened.childCount_eq hρ (some previous.id)
    have hmoves : (⟨j, t.opened.childCount (some (previous.rename ρ).id) + 1,
          some (previous.rename ρ).id⟩ : Move) ::
          shifted (-1) ((t.opened.children (p.rename ρ).parent).filter
            fun q => (p.rename ρ).position < q.position) =
        ((⟨i, s.opened.childCount (some previous.id) + 1, some previous.id⟩ : Move) ::
          shifted (-1) ((s.opened.children p.parent).filter
            fun q => p.position < q.position)).map (Move.rename ρ) := by
      rw [Paragraph.rename_parent, Paragraph.rename_position, hchildren,
        filter_position_rename (fun k => p.position < k), shifted_rename, hcount, ← hi, ← hj]
      rfl
    have hready : s.opened.Ready ((⟨i, s.opened.childCount (some previous.id) + 1,
        some previous.id⟩ : Move) :: shifted (-1) ((s.opened.children p.parent).filter
          fun q => p.position < q.position)) := by
      refine List.forall_mem_cons.2 ⟨⟨contains_iff_exists.2 ⟨p, hp, hi⟩, ?_⟩,
        hf.opened.ready_shifted (-1) mem_of_mem_children_filter⟩
      rintro id ⟨⟩
      exact contains_iff_exists.2 ⟨previous, hprev, rfl⟩
    rw [Option.map_some]
    dsimp only
    rw [hmoves]
    exact (makeMoves_twin hρ h.opened hready).bind_pure fun _ _ _ => rfl

/-- What an outdent does to a paragraph below another one. -/
theorem outdentBelow_twin {p parent : Paragraph} (hp : p ∈ s.paragraphs)
    (hparent : parent ∈ s.paragraphs) :
    Twin lenient names ρ Eq
      ((do
        makeMoves (shifted 1 ((s.children parent.parent).filter
            fun q => parent.position < q.position) ++
          [⟨p.id, parent.position + 1, parent.parent⟩] ++
          placed p.id (s.childCount (some p.id) + 1) ((s.children (some parent.id)).filter
            fun q => p.position < q.position))
        return true : StoreM Bool) s)
      ((do
        makeMoves (shifted 1 ((t.children (parent.rename ρ).parent).filter
            fun q => parent.position < q.position) ++
          [⟨ρ p.id, parent.position + 1, (parent.rename ρ).parent⟩] ++
          placed (ρ p.id) (t.childCount (some (ρ p.id)) + 1)
            ((t.children (some (ρ parent.id))).filter fun q => p.position < q.position))
        return true : StoreM Bool) t) := by
  have hcount : t.childCount (some (ρ p.id)) = s.childCount (some p.id) :=
    h.childCount_eq hρ (some p.id)
  have hafter := h.children_eq hρ parent.parent
  have hlater : t.children (some (ρ parent.id)) =
      (s.children (some parent.id)).map (Paragraph.rename ρ) := h.children_eq hρ (some parent.id)
  rw [Paragraph.rename_parent, hcount, hafter, hlater,
    filter_position_rename (fun k => parent.position < k),
    filter_position_rename (fun k => p.position < k), shifted_rename, placed_rename]
  have hmoves : ∀ xs ys : List Move, xs.map (Move.rename ρ) ++
      [(⟨ρ p.id, parent.position + 1, parent.parent.map ρ⟩ : Move)] ++ ys.map (Move.rename ρ) =
        (xs ++ [(⟨p.id, parent.position + 1, parent.parent⟩ : Move)] ++ ys).map
          (Move.rename ρ) := by
    intro xs ys
    rw [List.map_append, List.map_append]
    rfl
  rw [hmoves]
  have hid : s.contains p.id = true := contains_iff_exists.2 ⟨p, hp, rfl⟩
  refine (makeMoves_twin hρ h fun m hm => ?_).bind_pure fun _ _ _ => rfl
  rcases List.mem_append.1 hm with hm | hm
  · rcases List.mem_append.1 hm with hm | hm
    · exact hf.ready_shifted 1 mem_of_mem_children_filter m hm
    · obtain rfl := List.mem_singleton.1 hm
      exact ⟨hid, fun i hi => contains_iff_exists.2 (hf.parent_stored hparent hi)⟩
  · exact ready_placed hid _ mem_of_mem_children_filter m hm

theorem outdent_twin {i j : Int} (hn : Named names ρ s t i j) :
    Twin lenient names ρ Eq (outdent i s) (outdent j t) := by
  refine .transaction h (.bind .get fun _ => .bind (.lift _) fun _ => ?_)
    (.bind .get fun _ => .bind (.lift _) fun _ => ?_) (lookup_twin hρ h hn fun p hp hi hj => ?_)
  iterate 2
    · dsimp only
      split
      · exact .pure false
      · exact .bind (.lift _) fun _ => .bind (makeMoves_built _) fun _ => .pure true
  rw [Paragraph.rename_parent]
  cases hparent : p.parent with
  | none => exact .ok rfl h.opened
  | some parentId =>
    have hstored : s.opened.contains parentId = true :=
      contains_iff_exists.2 (hf.opened.parent_stored hp hparent)
    rw [Option.map_some]
    refine .lift_bind ((Named.stored hstored rfl).get hρ h.opened.toResembles) h.opened ?_
    rintro parent _ hget - rfl
    obtain ⟨hmem, rfl⟩ := get_eq_ok hget
    subst hi hj
    exact outdentBelow_twin hρ h.opened hf.opened hp hmem

theorem delete_twin (hs : s.spoilt = false) {i j : Int} (hn : Named names ρ s t i j) :
    Twin lenient names ρ (fun _ _ => True) (delete i s) (delete j t) := by
  refine .transaction h
    (.bind .get fun _ => .bind (.lift _) fun _ => .bind (.deleteSubtree i) fun _ =>
      makeMoves_built _)
    (.bind .get fun _ => .bind (.lift _) fun _ => .bind (.deleteSubtree j) fun _ =>
      makeMoves_built _) (lookup_twin hρ h hn fun p hp hi hj => ?_)
  subst hi hj
  have hid : s.opened.contains p.id = true := contains_iff_exists.2 ⟨p, hp, rfl⟩
  have hmoves : shifted (-1) ((t.opened.children (p.rename ρ).parent).filter
      fun q => (p.rename ρ).position < q.position) = (shifted (-1) ((s.opened.children
        p.parent).filter fun q => p.position < q.position)).map (Move.rename ρ) := by
    rw [Paragraph.rename_parent, Paragraph.rename_position, h.opened.children_eq hρ,
      filter_position_rename (fun k => p.position < k), shifted_rename]
  dsimp only
  rw [hmoves]
  refine (deleteSubtree_twin hρ h.opened hid).bind fun _ _ u v hu _ _ hm => ?_
  refine makeMoves_twin hρ hm ?_
  -- The siblings after it are still there, since removing it succeeds.
  obtain ⟨a, w, hrun⟩ := delete_ok hs hf ((contains_opened s p.id).symm.trans hid)
  obtain ⟨_, hbody, -⟩ := transaction_eq_ok hrun
  obtain ⟨q, hq⟩ := Option.isSome_iff_exists.1 hid
  have hget := get_ok hq
  obtain ⟨hmem, hqid⟩ := get_eq_ok hget
  obtain rfl := hf.opened.eq_of_id_eq hmem hp hqid
  rw [bind_ok get_run, bind_ok (lift_ok hget), bind_ok hu] at hbody
  exact ready_of_makeMoves hbody

end Edits

/-! ## Importing -/

/-- The place for the next element of a list, under other ids. -/
def Cursor.rename (ρ : Int → Int) (c : Cursor) : Cursor := { c with last := c.last.map ρ }

theorem leaf_twin (hρ : StrictMono ρ) (h : Mirrors lenient ρ s t) {parent parent' : Option Int}
    (hn : Placed names ρ s t parent parent') (c : Cursor) (v : Value) :
    Twin lenient names ρ (fun a b => b = (a.1.map ρ, a.2.rename ρ))
      ((do
        let fields ← Fields.ofText (← v.outlineText)
        let id ← create parent c.position fields
        return ([id], { position := c.position + 1, last := some id }) :
          StoreM (List Int × Cursor)) s)
      ((do
        let fields ← Fields.ofText (← v.outlineText)
        let id ← create parent' (c.rename ρ).position fields
        return ([id], { position := (c.rename ρ).position + 1, last := some id }) :
          StoreM (List Int × Cursor)) t) := by
  refine .same_bind _ h fun text _ => .same_bind _ h fun fields _ => ?_
  refine (create_twin hρ hn h c.position fields).bind_pure ?_
  rintro id _ rfl
  rfl

/-- An import below a paragraph that is not there, as long as nothing has been made. -/
theorem importItem_missing_twin (hρ : StrictMono ρ) (h : Mirrors lenient ρ s t) {i j : Int}
    (hn : Placed names ρ s t (some i) (some j)) (position : Int) :
    ∀ (around : List (Nat × Value)) (v : Value),
      Twin lenient names ρ (fun a b => b = (a.1.map ρ, a.2.rename ρ))
        (importItem around (some i) { position } v s)
        (importItem around (some j) { position } v t)
  | _, .list _ => .error (.same _) h
  | _, .tuple _ => .error (.same _) h
  | _, .loop _ v => importItem_missing_twin hρ h hn position _ v
  | _, .again _ => .error (.same _) h
  | _, .null => leaf_twin hρ h hn _ .null
  | _, .bool b => leaf_twin hρ h hn _ (.bool b)
  | _, .int n => leaf_twin hρ h hn _ (.int n)
  | _, .float x => leaf_twin hρ h hn _ (.float x)
  | _, .text text => leaf_twin hρ h hn _ (.text text)
  | _, .dict entries => leaf_twin hρ h hn _ (.dict entries)
  | _, .set items => leaf_twin hρ h hn _ (.set items)
  | _, .constant v => leaf_twin hρ h hn _ (.constant v)
  | _, .date d => leaf_twin hρ h hn _ (.date d)
  | _, .moment m => leaf_twin hρ h hn _ (.moment m)
  | _, .bytes bs => leaf_twin hρ h hn _ (.bytes bs)

theorem enter_twin (hρ : StrictMono ρ) (h : Mirrors lenient ρ s t) (c : Cursor)
    (items : List Value) :
    Twin lenient names ρ (fun a b => b = (ρ a.1, a.2.rename ρ)) (enter c items s)
      (enter (c.rename ρ) items t) := by
  have hlast : (c.rename ρ).last = c.last.map ρ := rfl
  unfold enter
  rw [hlast]
  cases c.last with
  | none => exact .throw _ h
  | some id =>
    have hcount : t.childCount (some (ρ id)) = s.childCount (some id) :=
      h.childCount_eq hρ (some id)
    refine .ok ?_ h
    show (ρ id, ({ position := (t.childCount (some (ρ id)) : Int) + 1 } : Cursor)) = _
    rw [hcount]
    rfl

/-- The elements of a list are made below the last paragraph made. -/
theorem nested_twin (hρ : StrictMono ρ) (h : Mirrors lenient ρ s t) (hs : s.spoilt = false)
    (hf : s.Shows (C.plug g)) {c : Cursor} (hc : c.At g) (items : List Value)
    (run run' : Int → Cursor → StoreM (List Int))
    (hrun : ∀ {C' : Hole} {b : Forest} {c' : Cursor} {id : Int}, s.Shows (C'.plug b) → c'.At b →
      C'.parent = some id →
      Twin lenient names ρ (fun a b => b = a.map ρ) (run id c' s) (run' (ρ id) (c'.rename ρ) t)) :
    Twin lenient names ρ (fun a b => b = (a.1.map ρ, a.2.rename ρ))
      ((do
        let (id, c₁) ← enter c items
        return (← run id c₁, c) : StoreM (List Int × Cursor)) s)
      ((do
        let (id, c₁) ← enter (c.rename ρ) items
        return (← run' id c₁, c.rename ρ) : StoreM (List Int × Cursor)) t) := by
  have henter := enter_outcome hs hf hc items
  refine (enter_twin hρ h c items).bind ?_
  rintro ⟨id, c'⟩ _ s' t' hs' ht' rfl hm
  obtain rfl := enter_eq_ok hs'
  obtain rfl := enter_eq_ok ht'
  rw [hs'] at henter
  cases henter with
  | done _ _ hf' hd =>
    obtain ⟨rfl, -, g', fields, b, rfl, hin⟩ := hd
    refine (hrun hf'.under hin rfl).bind_pure ?_
    rintro ids _ rfl
    rfl

mutual

theorem importItem_twin (around : List (Nat × Value)) {s t : Store} {C : Hole} {g : Forest}
    {c : Cursor} (hρ : StrictMono ρ) (h : Mirrors lenient ρ s t) (hs : s.spoilt = false)
    (hi : s.medium = .database → s.inTransaction = true) (hf : s.Shows (C.plug g))
    (hc : c.At g) : (v : Value) →
    Twin lenient names ρ (fun a b => b = (a.1.map ρ, a.2.rename ρ))
      (importItem around C.parent c v s) (importItem around (C.parent.map ρ) (c.rename ρ) v t)
  | .list items => by
    unfold importItem
    refine nested_twin hρ h hs hf hc _ (fun id c₁ => importItems around (some id) c₁ items)
      (fun id c₁ => importItems around (some id) c₁ items) fun {C' b c' id} hf' hc' hp => ?_
    have hrec := importItems_twin around hρ h hs hi hf' hc' items
    rwa [hp] at hrec
  | .tuple items => by
    unfold importItem
    refine nested_twin hρ h hs hf hc _ (fun id c₁ => importItems around (some id) c₁ items)
      (fun id c₁ => importItems around (some id) c₁ items) fun {C' b c' id} hf' hc' hp => ?_
    have hrec := importItems_twin around hρ h hs hi hf' hc' items
    rwa [hp] at hrec
  | .loop _ v => importItem_twin _ hρ h hs hi hf hc v
  | .again _ => (enter_twin hρ h c _).bind fun _ _ _ _ _ _ _ hm => .throw _ hm
  | .null => leaf_twin hρ h hf.placed_hole c .null
  | .bool b => leaf_twin hρ h hf.placed_hole c (.bool b)
  | .int n => leaf_twin hρ h hf.placed_hole c (.int n)
  | .float x => leaf_twin hρ h hf.placed_hole c (.float x)
  | .text text => leaf_twin hρ h hf.placed_hole c (.text text)
  | .dict entries => leaf_twin hρ h hf.placed_hole c (.dict entries)
  | .set items => leaf_twin hρ h hf.placed_hole c (.set items)
  | .constant v => leaf_twin hρ h hf.placed_hole c (.constant v)
  | .date d => leaf_twin hρ h hf.placed_hole c (.date d)
  | .moment m => leaf_twin hρ h hf.placed_hole c (.moment m)
  | .bytes bs => leaf_twin hρ h hf.placed_hole c (.bytes bs)

theorem importItems_twin (around : List (Nat × Value)) {s t : Store} {C : Hole} {g : Forest}
    {c : Cursor} (hρ : StrictMono ρ) (h : Mirrors lenient ρ s t) (hs : s.spoilt = false)
    (hi : s.medium = .database → s.inTransaction = true) (hf : s.Shows (C.plug g))
    (hc : c.At g) : (items : List Value) →
    Twin lenient names ρ (fun a b => b = a.map ρ) (importItems around C.parent c items s)
      (importItems around (C.parent.map ρ) (c.rename ρ) items t)
  | [] => .ok rfl h
  | v :: rest => by
    have ho := importItem_outcome around hs hi hf hc v
    refine (importItem_twin around hρ h hs hi hf hc v).bind ?_
    rintro ⟨ids, c'⟩ _ s' t' hs' - rfl hm
    rw [hs'] at ho
    cases ho with
    | done hfol hspoilt hf' hd =>
      obtain ⟨g', rfl, hc', -⟩ := hd
      refine
        (importItems_twin around hρ hm hspoilt (hfol.inTransaction hi) hf' hc' rest).bind_pure ?_
      rintro ids' _ rfl
      exact (List.map_append ..).symm

end

/-- Below a paragraph that is not there only an empty list is imported. -/
theorem importItems_missing_twin (hρ : StrictMono ρ) (h : Mirrors lenient ρ s t) {i j : Int}
    (hn : Placed names ρ s t (some i) (some j)) (hi : ¬ s.contains i = true) (position : Int) :
    (items : List Value) →
    Twin lenient names ρ (fun a b => b = a.map ρ) (importItems [] (some i) { position } items s)
      (importItems [] (some j) { position } items t)
  | [] => .ok rfl h
  | v :: rest => by
    obtain ⟨e, he⟩ := importItem_missing hi position [] v
    refine (importItem_missing_twin hρ h hn position [] v).bind fun _ _ _ _ hs' => ?_
    exact nomatch he.symm.trans hs'

theorem importOutline_twin (hρ : StrictMono ρ) (h : Mirrors lenient ρ s t) (hs : s.spoilt = false)
    (hf : s.Shows f)
    {parent parent' : Option Int} (hn : Placed names ρ s t parent parent') (outline : Value) :
    Twin lenient names ρ (fun a b => b = a.map ρ) (importOutline outline parent s)
      (importOutline outline parent' t) := by
  have hbuilt : ∀ parent, Built (importing outline parent) := by
    intro parent
    unfold importing
    cases outline.members? with
    | none => exact .throw _
    | some items => exact .bind .get fun _ => .bind (.lift _) fun _ => importItems_built _ _ _ items
  refine .transaction h (hbuilt parent) (hbuilt parent') ?_
  cases outline.members? with
  | none => exact .throw _ h.opened
  | some items =>
    refine .get_bind
      (.lift_bind (hn.opened.nextPosition hρ h.opened.toResembles hf.opened) h.opened ?_)
    rintro position _ hposition - rfl
    by_cases hp : ∀ id, parent = some id → s.contains id = true
    · obtain ⟨C, g, rfl, rfl⟩ := hf.exists_scope hp
      obtain rfl := hn.eq_map hp
      have hnext : s.opened.nextPosition C.parent = .ok (1 + g.width) :=
        hf.opened.nextPosition_eq
      obtain rfl : 1 + (g.width : Int) = position := by
        rw [hnext] at hposition
        exact Except.ok.inj hposition
      have hc : Cursor.At { position := 1 + g.width } g := ⟨rfl, fun _ hl => nomatch hl⟩
      exact importItems_twin [] hρ h.opened ((spoilt_opened s).trans hs) (opened_inTransaction s)
        hf.opened hc items
    · simp only [not_forall] at hp
      obtain ⟨i, rfl, hi⟩ := hp
      obtain ⟨j, rfl⟩ : ∃ j, parent' = some j := by
        cases hn with
        | under => exact ⟨_, rfl⟩
      exact importItems_missing_twin hρ h.opened hn.opened
        (by rwa [contains_opened]) position items

end Store

end Bylaws
