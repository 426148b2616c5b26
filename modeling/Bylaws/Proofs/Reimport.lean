import Bylaws.Proofs.Outline
import Bylaws.Proofs.Session.Runs

/-!
# Importing an outline again

The outline of a document by its import texts, imported into an empty document, makes the same
paragraphs again if and only if each text gives the fields of its paragraph
(`Store.source_reimport`). The import succeeds since it goes through the forest of the document:
every list follows the text of the paragraph that it lies below, and every position is one that
the document had. Paragraphs that come from an import always give their fields.
-/

namespace Bylaws

open Forest

/-- A line without its id. -/
def Line.shape (l : Line) : Fields × Nat := (l.fields, l.depth)

/-- Fields are given again by the text that they are written as. -/
def Fields.ReadsBack (f : Fields) : Prop := ofText f.source = .ok f

/-- All nodes have positions among their siblings and fields with a property, when the topmost
ones are counted from some position on. -/
def Forest.AllAt (Q : Int → Fields → Prop) : Int → Forest → Prop
  | _, nil => True
  | k, cons _ fields below rest => Q k fields ∧ below.AllAt Q 1 ∧ rest.AllAt Q (k + 1)

theorem allAt_of_forall {Q : Int → Fields → Prop} {doc : String} (parent : Option Int) {k : Int}
    {f : Forest}
    (h : ∀ p ∈ (f.heads doc parent k : Multiset Paragraph) + f.deeper doc,
      Q p.position p.fields) : f.AllAt Q k := by
  induction f generalizing parent k with
  | nil => trivial
  | cons id fields below rest ih₁ ih₂ =>
    simp only [heads, deeper, Multiset.mem_add, Multiset.mem_coe, List.mem_cons] at h
    refine ⟨h _ (.inl (.inl rfl)), ih₁ (some id) fun p hp => h p (.inr (.inl ?_)),
      ih₂ parent fun p hp => h p ?_⟩
    · exact Multiset.mem_add.1 hp
    · rcases Multiset.mem_add.1 hp with hp | hp
      · exact .inl (.inr (Multiset.mem_coe.1 hp))
      · exact .inr (.inr hp)

theorem map_shape_eq_iff {ls new : List Line}
    (h : List.Forall₂ (fun l l' : Line => Fields.ofText l.fields.source = .ok l'.fields ∧
      l.depth = l'.depth) ls new) :
    new.map Line.shape = ls.map Line.shape ↔ ∀ l ∈ ls, l.fields.ReadsBack := by
  induction h with
  | nil => simp
  | @cons l l' ls new hl _ ih =>
    rw [List.map_cons, List.map_cons, List.cons.injEq, ih, List.forall_mem_cons]
    apply and_congr_left
    intro _
    unfold Line.shape Fields.ReadsBack
    rw [hl.1, hl.2, Prod.mk.injEq]
    simp

namespace Store

variable {s t u : Store} {f : Forest}

/-! ## What has been imported -/

/-- An import of the outline of a forest into an empty document makes the same forest just if
all fields are given again. -/
theorem Fresh.lines_eq_iff (ht : t.Fresh) {ids : List Int}
    (h : importOutline (.list f.sourceItems) none t = (.ok ids, u)) :
    u.lines.map Line.shape = (f.lines 1).map Line.shape ↔
      f.All fun _ fields => fields.ReadsBack := by
  have ho := importOutline_outcome (C := .top) ht.spoilt_eq ht.shows (.list f.sourceItems)
  rw [show Hole.top.parent = none from rfl, h] at ho
  cases ho with
  | done _ _ h₃ h₄ =>
    obtain ⟨g', hg, new, hl, -, hnew⟩ := h₄
    have hleaves : leavesIn Hole.top.depth ((Value.list f.sourceItems).members?.getD []) = _ :=
      leavesIn_sourceItems f 1
    rw [hleaves, List.forall₂_map_left_iff] at hnew
    rw [h₃.lines_eq, hg, f.all_iff 1, show (Hole.top.plug g').lines 1 = new from hl]
    exact map_shape_eq_iff hnew

/-! ## Importing succeeds -/

theorem canHold_congr (h : t.medium = s.medium) (position : Int) (heading : Option Int) :
    t.canHold position heading = s.canHold position heading := by
  unfold canHold
  rw [h]

/-- A text that gives fields makes a paragraph at the end of a place. -/
theorem importItem_text (around : List (Nat × Value)) {C : Hole} {g : Forest} {c : Cursor}
    {text : String} {fields : Fields} (h : t.Shows (C.plug g)) (hc : c.At g)
    (hf : Fields.ofText text = .ok fields) (hcan : t.canHold c.position fields.heading = true) :
    importItem around C.parent c (.text text) t =
        (.ok ([t.nextId], { position := c.position + 1, last := some t.nextId }),
          t.added C.parent c.position fields) ∧
      (t.added C.parent c.position fields).Shows (C.plug (g ++ tree t.nextId fields nil)) := by
  have hparent : ∀ id, C.parent = some id → t.contains id = true :=
    fun id hid => h.contains_of_parent hid
  refine ⟨?_, (h.holds.added hcan).shows_of ?_⟩
  · show (do
      let fields ← Fields.ofText (← (Value.text text).outlineText)
      let id ← create C.parent c.position fields
      return ([id], { position := c.position + 1, last := some id }) :
        StoreM (List Int × Cursor)) t = _
    have htext : (Value.text text).outlineText = .ok text := rfl
    rw [bind_ok (lift_ok htext), bind_ok (lift_ok hf), bind_ok (create_ok hparent hcan)]
    rfl
  · rw [hc.position_eq, documentId_added, rows_added]

/-- An import into a place succeeds. -/
def Succeeds (C : Hole) (run : StoreM (List Int)) (t : Store) : Prop :=
  ∃ ids u g, run t = (.ok ids, u) ∧ u.medium = t.medium ∧ u.Shows (C.plug g)

/-- What is below the last paragraph made is imported before what comes after it. -/
theorem Succeeds.nested {around : List (Nat × Value)} {C : Hole} {g : Forest} {c : Cursor}
    {id : Int} {fields : Fields} {items rest : List Value}
    (h : t.Shows (C.plug (g ++ tree id fields nil))) (hl : c.last = some id)
    (hitems : Succeeds (.under g id fields nil C)
      (importItems around (some id) { position := 1 } items) t)
    (hrest : ∀ u b, u.medium = t.medium → u.Shows (C.plug (g ++ tree id fields b)) →
      Succeeds C (importItems around C.parent c rest) u) :
    Succeeds C (importItems around C.parent c (nestedItems items ++ rest)) t := by
  cases items with
  | nil => exact hrest t nil rfl h
  | cons v items =>
    obtain ⟨ids, u, b, hrun, hm, hu⟩ := hitems
    obtain ⟨ids', w, g', hrun', hm', hw⟩ := hrest u b hm hu
    refine ⟨ids ++ ids', w, g', ?_, hm'.trans hm, hw⟩
    have hcount : t.childCount (some id) = 0 := Shows.under h |>.childCount_eq
    have henter : enter c ((v :: items).map (·.closed around)) t =
        (.ok (id, { position := 1 }), t) := by
      unfold enter
      rw [hl]
      show (Except.ok (id, ({ position := (t.childCount (some id) : Int) + 1 } : Cursor)), t) = _
      rw [hcount]
      rfl
    have hlist : importItem around C.parent c (.list (v :: items)) t = (.ok (ids, c), u) := by
      unfold importItem
      rw [bind_ok henter]
      dsimp only
      rw [bind_ok hrun]
      rfl
    show (importItem around C.parent c (.list (v :: items)) >>= fun a =>
      importItems around C.parent a.2 rest >>= fun ids' => pure (a.1 ++ ids')) t = _
    rw [bind_ok hlist, bind_ok hrun']
    rfl

/-- The outline of a forest is imported at the end of a place, if every text gives fields and the
medium holds every position. -/
theorem importItems_sourceItems (around : List (Nat × Value)) {C : Hole} {g : Forest} {c : Cursor}
    (hm : t.medium = s.medium) (h : t.Shows (C.plug g)) (hc : c.At g)
    (hall : f.AllAt (fun k fields => fields.ReadsBack ∧ s.canHold k fields.heading = true)
      c.position) :
    Succeeds C (importItems around C.parent c f.sourceItems) t := by
  induction f generalizing t C g c with
  | nil => exact ⟨[], t, g, rfl, rfl, h⟩
  | cons id fields below rest ih₁ ih₂ =>
    obtain ⟨⟨hf, hcan⟩, hbelow, hrest⟩ := hall
    obtain ⟨hrun, h₁⟩ := importItem_text around h hc hf ((canHold_congr hm _ _).trans hcan)
    have hc₁ := hc.leaf t.nextId fields
    have hin : Cursor.At { position := 1 } nil := ⟨rfl, fun _ hl => nomatch hl⟩
    obtain ⟨ids, w, g', hrun', hm', hw⟩ := Succeeds.nested h₁ rfl
      (ih₁ (C := .under g t.nextId fields nil C) hm h₁ hin hbelow)
      fun u b hu hb => ih₂ (hu.trans hm) hb (hc₁.below rfl b) hrest
    refine ⟨t.nextId :: ids, w, g', ?_, hm', hw⟩
    show (importItem around C.parent c (.text fields.source) >>= fun a =>
      importItems around C.parent a.2 (nestedItems below.sourceItems ++ rest.sourceItems) >>=
        fun ids' => pure (a.1 ++ ids')) t = _
    rw [bind_ok hrun, bind_ok hrun']
    rfl

/-- The outline of a forest whose texts all give their fields is imported into an empty
document. -/
theorem Fresh.exists_import (ht : t.Fresh) (h : s.Shows f)
    (hf : f.All fun _ fields => fields.ReadsBack)
    (hm : ∀ p ∈ s.paragraphs, t.canHold p.position p.heading = true) :
    ∃ ids u, importOutline (.list f.sourceItems) none t = (.ok ids, u) := by
  have hall : f.AllAt (fun k fields => fields.ReadsBack ∧ t.canHold k fields.heading = true) 1 :=
    allAt_of_forall none fun p hp => by
      have hmem : p ∈ s.paragraphs := h.mem_iff.2 hp
      exact ⟨h.all_iff.1 hf p hmem, hm p hmem⟩
  have hc : Cursor.At { position := 1 } nil := ⟨rfl, fun _ hl => nomatch hl⟩
  obtain ⟨ids, u, -, hrun, -, -⟩ := importItems_sourceItems [] (C := .top) (medium_opened t)
    ht.shows.opened hc hall
  refine ⟨ids, _, transaction_eq (t := u) (r := .ok ids) ?_⟩
  have hn : t.opened.nextPosition none = .ok 1 := ht.shows.opened.nextPosition_eq (C := .top)
  show (MonadState.get >>= fun s => liftM (s.nextPosition none) >>=
    fun position => importItems [] none { position } f.sourceItems) t.opened = _
  rw [bind_ok get_run, bind_ok (lift_ok hn)]
  exact hrun

/-- The import texts of a document that a run comes to, imported into an empty document that can
hold its numbers, give the same fields at the same depths just if the text of every paragraph
gives its fields. Those of paragraphs that come from imports do, wherever they have been moved. -/
theorem source_reimport {start : Store} {events : List Event} {d : Document}
    (hstart : start.Fresh) (hh : ∀ e ∈ events, e.Holdable start.medium)
    (hd : (Session.run { store := start } events).store = d.store) (hs : d.store.spoilt = false)
    (ht : t.Fresh) (hm : ∀ p ∈ d.store.paragraphs, t.canHold p.position p.heading = true) :
    (∃ outline, d.sourceOutline = .ok outline ∧
      ((∃ ids u, importOutline outline none t = (.ok ids, u) ∧
          u.lines.map Line.shape = d.store.lines.map Line.shape) ↔
        ∀ p ∈ d.store.paragraphs, Fields.ofText p.source = .ok p.fields)) ∧
      ∀ p ∈ d.store.paragraphs, p.id ∉ (Session.run { store := start } events).written →
        Fields.ofText p.source = .ok p.fields := by
  obtain ⟨f, hf⟩ := Reachable.exists_shows ⟨start, events, hstart, hh, hd.symm, hs⟩
  refine ⟨⟨_, hf.sourceOutline_eq, ?_⟩, ?_⟩
  · have hall : (f.All fun _ fields => fields.ReadsBack) ↔
        ∀ p ∈ d.store.paragraphs, Fields.ofText p.source = .ok p.fields := hf.all_iff
    rw [hf.lines_eq, ← hall]
    constructor
    · rintro ⟨ids, u, hrun, hl⟩
      exact (ht.lines_eq_iff hrun).1 hl
    · intro hback
      obtain ⟨ids, u, hrun⟩ := ht.exists_import hf hback hm
      exact ⟨ids, u, hrun, (ht.lines_eq_iff hrun).2 hback⟩
  · intro p hp hid
    obtain ⟨text, htext⟩ := hstart.exists_text hh (hd ▸ hs) (hd ▸ hp) hid
    exact Fields.ofText_source htext

/-- A paragraph with a name and one below it, which is raised afterwards. -/
def raisedImport : List Event :=
  [.edit (.importOutline (.list [.text "#rticles#name#x a", .list [.text "b"]]) none),
    .edit (.outdent 2)]

def raised : Document where
  store := (Session.run { store := { documentId := "d" } } raisedImport).store

theorem source_reimport_raised :
    ∃ outline ids u, raised.sourceOutline = .ok outline ∧
      importOutline outline none { documentId := "e" } = (.ok ids, u) ∧
      u.lines.map Line.shape = raised.store.lines.map Line.shape := by
  have hh : ∀ e ∈ raisedImport, e.Holdable .memory := by
    simp [raisedImport, Event.Holdable, Edit.Holdable]
  have hs : raised.store.spoilt = false := by decide +kernel
  have hd : (Session.run { store := { documentId := "d" } } raisedImport).store = raised.store := by
    simp only [raised]
  have hm : ∀ p ∈ raised.store.paragraphs,
      Store.canHold { documentId := "e" } p.position p.heading = true := fun _ _ => rfl
  have hwritten : (Session.run { store := { documentId := "d" } } raisedImport).written = [] := by
    decide +kernel
  obtain ⟨⟨outline, hout, hiff⟩, hback⟩ :=
    source_reimport (fresh_empty .memory "d") hh hd hs (fresh_empty .memory "e") hm
  obtain ⟨ids, u, hrun, hl⟩ := hiff.2 fun p hp => hback p hp (by
    rw [hwritten]
    exact List.not_mem_nil)
  exact ⟨outline, ids, u, hout, hrun, hl⟩

end Store

end Bylaws
