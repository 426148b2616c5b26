import Bylaws.Proofs.Directive
import Bylaws.Proofs.Forest.Import

/-!
# Edits by any caller

An edit is asked for with any ids and any content. `Edit.Turns` says what forest a successful
edit makes of another one, and `Edit.Leaves` what one that fails may leave; on a store that shows
a forest these are the outcomes, besides a transaction that will be undone (`Store.edit_turns`).
So the ids that an edit answers are new ones, and a property that all paragraphs have is kept
(`Store.edit_outcome`).
-/

namespace Bylaws

open Forest

/-- An edit of the structure of a document as a caller asks for it. -/
inductive Edit where
  | append (fields : Fields) (parent : Option Int)
  | insert (fields : Fields) (before after : Option Int)
  | indent (id : Int)
  | outdent (id : Int)
  | delete (id : Int)
  | importOutline (outline : Value) (parent : Option Int)

namespace Edit

/-- Runs an edit. It answers the ids of the paragraphs that it makes. -/
def run : Edit → StoreM (List Int)
  | append fields parent => do return [← Store.append (← fields.check) parent]
  | insert fields before after => do
    let neighbour ← Store.Neighbour.of before after
    return [← Store.insert (← fields.check) neighbour]
  | indent id => do
    let _ ← Store.indent id
    return []
  | outdent id => do
    let _ ← Store.outdent id
    return []
  | delete id => do
    Store.delete id
    return []
  | importOutline outline parent => Store.importOutline outline parent

/-- Whether a caller gives the fields of what an edit makes. -/
def writes : Edit → Bool
  | append _ _ => true
  | insert _ _ _ => true
  | _ => false

/-- Whether all paragraphs that an edit makes have a property, given the ids that it answers. Some
may be made by an import that fails and answers none. -/
def Makes (P : Int → Fields → Prop) (ids : List Int) : Edit → Prop
  | append fields _ => ∀ id ∈ ids, P id fields
  | insert fields _ _ => ∀ id ∈ ids, P id fields
  | importOutline _ _ => ∀ id text fields, Fields.ofText text = .ok fields → P id fields
  | _ => True

/-- Whether a database can hold the heading level of what an edit inserts. The positions around
an inserted paragraph are changed before its heading is looked at. -/
def Holdable (medium : Medium) : Edit → Prop
  | insert fields _ _ => medium = .database → ∀ n, fields.heading = some n → Store.fits n = true
  | _ => True

end Edit

namespace Store

variable {s : Store} {P : Int → Fields → Prop}

/-- The ids answered are new ones, in the order in which they are issued. -/
def Answers (s : Store) (ids : List Int) (f : Forest) : Prop :=
  ids.Pairwise (· < ·) ∧ ∀ id ∈ ids, s.nextId ≤ id ∧ id ∈ f.ids

theorem answers_nil (s : Store) (f : Forest) : s.Answers [] f :=
  ⟨.nil, fun _ h => absurd h List.not_mem_nil⟩

theorem answers_single {f : Forest} (h : s.nextId ∈ f.ids) : s.Answers [s.nextId] f := by
  refine ⟨List.pairwise_singleton _ _, fun id hid => ?_⟩
  obtain rfl := List.mem_singleton.1 hid
  exact ⟨Int.le_refl _, h⟩

/-- A failure that changes nothing. -/
theorem Outcome.unchanged {α : Type} {done : α → Forest → Prop} {failed : Forest → Prop}
    {noRoom : Prop} {x : Except Fault α × Store} (hs : s.spoilt = false) (h : s.Shows f)
    (hx : ∃ e, x = (.error e, s)) (hf : failed f) : Outcome s done failed noRoom x := by
  obtain ⟨e, rfl⟩ := hx
  exact .failed (.refl s) hs h hf

/-- The ids and the fields of all paragraphs are those of all nodes. -/
theorem Shows.all_iff (h : s.Shows f) : f.All P ↔ ∀ p ∈ s.paragraphs, P p.id p.fields := by
  have hperm := h.content_perm 1
  rw [f.all_iff 1]
  constructor
  · intro hl p hp
    obtain ⟨l, hm, he⟩ := List.mem_map.1 (hperm.mem_iff.1 (List.mem_map_of_mem hp))
    obtain ⟨hid, hfields⟩ := Prod.mk.inj he
    rw [← hid, ← hfields]
    exact hl l hm
  · intro hp l hl
    obtain ⟨p, hm, he⟩ := List.mem_map.1 (hperm.mem_iff.2 (List.mem_map_of_mem hl))
    obtain ⟨hid, hfields⟩ := Prod.mk.inj he
    rw [← hid, ← hfields]
    exact hp p hm

theorem Grows.all {depth : Nat} {leaves : List (Value × Nat)} {ids : List Int} {g g' : Forest}
    (h : Grows depth leaves ids g g') (hg : g.All P)
    (hm : ∀ id text fields, Fields.ofText text = .ok fields → P id fields) : g'.All P := by
  obtain ⟨new, hl, -, hf⟩ := h
  rw [Forest.all_iff g' depth, hl]
  rw [Forest.all_iff g depth] at hg
  rw [List.forall_mem_append]
  refine ⟨hg, ?_⟩
  clear hl
  induction hf with
  | nil => exact fun l h => absurd h List.not_mem_nil
  | @cons e l _ _ he _ ih =>
    rw [List.forall_mem_cons]
    refine ⟨?_, ih⟩
    obtain ⟨hfields, -⟩ := he
    unfold Value.fields at hfields
    cases ht : e.1.outlineText with
    | error _ =>
      rw [ht] at hfields
      exact nomatch hfields
    | ok text =>
      rw [ht] at hfields
      exact hm l.id text l.fields hfields

theorem Grows.mem_ids {depth : Nat} {leaves : List (Value × Nat)} {ids : List Int}
    {g g' : Forest} (h : Grows depth leaves ids g g') {id : Int} (hid : id ∈ ids) :
    id ∈ g'.ids := by
  obtain ⟨new, hl, rfl, -⟩ := h
  rw [← map_id_lines g' depth, hl, List.map_append]
  exact List.mem_append_right _ hid

theorem mem_ids_plug {C : Hole} {g : Forest} {id : Int} (h : id ∈ g.ids) :
    id ∈ (C.plug g).ids :=
  (Hole.ids_plug_perm C g).mem_iff.2 (List.mem_append_right _ h)

end Store

/-! ## What edits do -/

namespace Edit

/-- What a successful edit makes of a forest, given the next id, and the ids that it answers. -/
inductive Turns (next : Int) : Edit → Forest → List Int → Forest → Prop where
  | append {fields : Fields} (h : fields.check = .ok fields) (C : Hole) (g : Forest) :
    Turns next (.append fields C.parent) (C.plug g) [next] (C.plug (g ++ tree next fields nil))
  | before {fields : Fields} {before after : Option Int} {id : Int}
    (h : fields.check = .ok fields) (hn : Store.Neighbour.of before after = .ok (.before id))
    (C : Hole) (l : Forest) (old : Fields) (b r : Forest) :
    Turns next (.insert fields before after) (C.plug (l ++ cons id old b r)) [next]
      (C.plug (l ++ cons next fields nil (cons id old b r)))
  | after {fields : Fields} {before after : Option Int} {id : Int}
    (h : fields.check = .ok fields) (hn : Store.Neighbour.of before after = .ok (.after id))
    (C : Hole) (l : Forest) (old : Fields) (b r : Forest) :
    Turns next (.insert fields before after) (C.plug (l ++ cons id old b r)) [next]
      (C.plug (l ++ cons id old b (cons next fields nil r)))
  | first (C : Hole) (id : Int) (fields : Fields) (b r : Forest) :
    Turns next (.indent id) (C.plug (cons id fields b r)) [] (C.plug (cons id fields b r))
  | indent (C : Hole) (l : Forest) (q : Int) (qf : Fields) (qb : Forest) (id : Int)
    (fields : Fields) (b r : Forest) :
    Turns next (.indent id) (C.plug (l ++ cons q qf qb (cons id fields b r))) []
      (C.plug (l ++ cons q qf (qb ++ tree id fields b) r))
  | top (l : Forest) (id : Int) (fields : Fields) (b r : Forest) :
    Turns next (.outdent id) (l ++ cons id fields b r) [] (l ++ cons id fields b r)
  | outdent (C : Hole) (l : Forest) (q : Int) (qf : Fields) (qb : Forest) (id : Int)
    (fields : Fields) (b a r : Forest) :
    Turns next (.outdent id) (C.plug (l ++ cons q qf (qb ++ cons id fields b a) r)) []
      (C.plug (l ++ cons q qf qb (cons id fields (b ++ a) r)))
  | delete (C : Hole) (l : Forest) (id : Int) (fields : Fields) (b r : Forest) :
    Turns next (.delete id) (C.plug (l ++ cons id fields b r)) [] (C.plug (l ++ r))
  | importOutline {outline : Value} {C : Hole} {g g' : Forest} {ids : List Int}
    (h : Store.Grows C.depth (leavesIn C.depth (outline.members?.getD [])) ids g g')
    (hids : ids = Store.issued next ids.length) :
    Turns next (.importOutline outline C.parent) (C.plug g) ids (C.plug g')
  | nothing (outline : Value) (parent : Option Int) (f : Forest) :
    Turns next (.importOutline outline parent) f [] f

/-- What an edit that fails may leave of a forest: the forest itself, or what an import has made
before the fault. -/
def Leaves : Edit → Forest → Forest → Prop
  | importOutline _ parent, f, f' =>
    f' = f ∨ ∃ (C : Hole) (g : Forest), parent = C.parent ∧ f = C.plug g ∧ Store.Partly C g f'
  | _, f, f' => f' = f

theorem Leaves.refl (e : Edit) (f : Forest) : e.Leaves f f := by
  cases e with
  | importOutline => exact .inl rfl
  | _ => rfl

/-- A property of all nodes that an edit makes and of those that were there is one of all. -/
theorem Turns.all {next : Int} {e : Edit} {f f' : Forest} {ids : List Int}
    {P : Int → Fields → Prop} (h : e.Turns next f ids f') (hP : f.All P) (hm : e.Makes P ids) :
    f'.All P := by
  cases h with
  | append _ C g =>
    rw [Hole.all_plug] at hP
    simp only [Hole.all_plug, all_append, tree, All]
    exact ⟨hP.1, hP.2, hm next (List.mem_singleton_self _), trivial, trivial⟩
  | before _ _ C l old b r =>
    simp only [Hole.all_plug, all_append, All] at hP ⊢
    exact ⟨hP.1, hP.2.1, hm next (List.mem_singleton_self _), trivial, hP.2.2⟩
  | after _ _ C l old b r =>
    simp only [Hole.all_plug, all_append, All] at hP ⊢
    obtain ⟨hC, hl, hold, hb, hr⟩ := hP
    exact ⟨hC, hl, hold, hb, hm next (List.mem_singleton_self _), trivial, hr⟩
  | first => exact hP
  | indent C l q qf qb id fields b r =>
    simp only [Hole.all_plug, all_append, All, tree] at hP ⊢
    obtain ⟨hC, hl, hq, hqb, hid, hb, hr⟩ := hP
    exact ⟨hC, hl, hq, ⟨hqb, hid, hb, trivial⟩, hr⟩
  | top => exact hP
  | outdent C l q qf qb id fields b a r =>
    simp only [Hole.all_plug, all_append, All] at hP ⊢
    obtain ⟨hC, hl, hq, ⟨hqb, hid, hb, ha⟩, hr⟩ := hP
    exact ⟨hC, hl, hq, hqb, hid, ⟨hb, ha⟩, hr⟩
  | delete C l id fields b r =>
    simp only [Hole.all_plug, all_append, All] at hP ⊢
    exact ⟨hP.1, hP.2.1, hP.2.2.2.2⟩
  | importOutline h _ =>
    rw [Hole.all_plug] at hP ⊢
    exact ⟨hP.1, h.all hP.2 hm⟩
  | nothing => exact hP

theorem Leaves.all {e : Edit} {f f' : Forest} {P : Int → Fields → Prop} (h : e.Leaves f f')
    (hP : f.All P) (hm : e.Makes P []) : f'.All P := by
  cases e with
  | importOutline outline parent =>
    rcases h with rfl | ⟨C, g, -, rfl, g', _, _, rfl, hg⟩
    · exact hP
    · rw [Hole.all_plug] at hP ⊢
      exact ⟨hP.1, hg.all hP.2 hm⟩
  | _ =>
    obtain rfl : f' = f := h
    exact hP

end Edit

namespace Store

variable {s : Store} {f : Forest} {P : Int → Fields → Prop}

/-- The ids that an edit answers are new ones. -/
theorem answers_of_turns {e : Edit} {ids : List Int} {f' : Forest}
    (h : e.Turns s.nextId f ids f') : s.Answers ids f' := by
  cases h with
  | append => exact answers_single (mem_ids_plug (by simp [tree]))
  | before => exact answers_single (mem_ids_plug (by simp))
  | after => exact answers_single (mem_ids_plug (by simp))
  | importOutline hg hids =>
    refine ⟨hids ▸ pairwise_issued _ _, fun id hid => ⟨?_, mem_ids_plug (hg.mem_ids hid)⟩⟩
    rw [hids] at hid
    exact (mem_issued.1 hid).1
  | _ => exact answers_nil s _

/-! ## Single edits -/

section Edits

variable (hs : s.spoilt = false) (h : s.Shows f)

include hs h

theorem append_turns (fields : Fields) (parent : Option Int) :
    Outcome s ((Edit.append fields parent).Turns s.nextId f) (fun f' => f' = f) True
      ((Edit.append fields parent).run s) := by
  refine .lift_bind hs h rfl ?_
  intro fields' hc
  obtain rfl : fields = fields' := Fields.check_eq_ok hc
  by_cases hp : ∀ id, parent = some id → s.contains id = true
  · obtain ⟨C, g, rfl, rfl⟩ := h.exists_scope hp
    refine .bind ((append_outcome hs h).mono (fun _ _ hd => hd)
      (fun _ hf => hf.1) fun _ => trivial) ?_
    rintro id t f' - hs' hf' ⟨rfl, rfl⟩
    exact .done (.refl t) hs' hf' (.append hc C g)
  · simp only [not_forall] at hp
    obtain ⟨id, rfl, hid⟩ := hp
    obtain ⟨e, he⟩ := append_missing fields hs hid
    exact .unchanged hs h ⟨e, bind_error he⟩ rfl

theorem insert_turns {fields : Fields} (hh : s.HoldsHeading fields)
    (before after : Option Int) :
    Outcome s ((Edit.insert fields before after).Turns s.nextId f) (fun f' => f' = f) True
      ((Edit.insert fields before after).run s) := by
  refine .lift_bind hs h rfl fun neighbour hn => .lift_bind hs h rfl ?_
  intro fields' hc
  obtain rfl : fields = fields' := Fields.check_eq_ok hc
  by_cases hid : s.contains neighbour.id = true
  · obtain ⟨C, l, b, r, old, rfl⟩ := h.exists_node hid
    cases neighbour with
    | before id =>
      refine .bind ((insert_before_outcome hs hh h).mono (fun _ _ hd => hd)
        (fun _ hf => hf.1) fun _ => trivial) ?_
      rintro n t f' - hs' hf' ⟨rfl, rfl⟩
      exact .done (.refl t) hs' hf' (.before hc hn C l old b r)
    | after id =>
      refine .bind ((insert_after_outcome hs hh h).mono (fun _ _ hd => hd)
        (fun _ hf => hf.1) fun _ => trivial) ?_
      rintro n t f' - hs' hf' ⟨rfl, rfl⟩
      exact .done (.refl t) hs' hf' (.after hc hn C l old b r)
  · obtain ⟨e, he⟩ := insert_missing fields hs hid
    exact .unchanged hs h ⟨e, bind_error he⟩ rfl

theorem indent_turns (id : Int) :
    Outcome s ((Edit.indent id).Turns s.nextId f) (fun f' => f' = f) True
      ((Edit.indent id).run s) := by
  by_cases hid : s.contains id = true
  · obtain ⟨C, l, b, r, fields, rfl⟩ := h.exists_node hid
    rcases eq_nil_or_append_tree l with rfl | ⟨l', q, qf, qb, rfl⟩
    · have hrun := indent_first hs h
      rw [show (Edit.indent id).run s = _ from bind_ok hrun]
      exact .done (.refl s) hs h (.first C id fields b r)
    · rw [append_assoc, tree_append] at h ⊢
      refine .bind ((indent_outcome hs h).mono (fun _ _ hd => hd)
        (fun _ hf => hf.1) fun _ => trivial) ?_
      rintro moved t f' - hs' hf' ⟨rfl, rfl⟩
      exact .done (.refl t) hs' hf' (.indent C l' q qf qb id fields b r)
  · obtain ⟨e, he⟩ := indent_missing hs hid
    exact .unchanged hs h ⟨e, bind_error he⟩ rfl

theorem outdent_turns (id : Int) :
    Outcome s ((Edit.outdent id).Turns s.nextId f) (fun f' => f' = f) True
      ((Edit.outdent id).run s) := by
  by_cases hid : s.contains id = true
  · obtain ⟨C, l, b, r, fields, rfl⟩ := h.exists_node hid
    cases C with
    | top =>
      have hrun := outdent_top hs h
      rw [show (Edit.outdent id).run s = _ from bind_ok hrun]
      exact .done (.refl s) hs h (.top l id fields b r)
    | under left p pf right outer =>
      refine .bind ((outdent_outcome hs h).mono (fun _ _ hd => hd)
        (fun _ hf => hf.1) fun _ => trivial) ?_
      rintro moved t f' - hs' hf' ⟨rfl, rfl⟩
      exact .done (.refl t) hs' hf' (.outdent outer left p pf l id fields b r right)
  · obtain ⟨e, he⟩ := outdent_missing hs hid
    exact .unchanged hs h ⟨e, bind_error he⟩ rfl

theorem delete_turns (id : Int) :
    Outcome s ((Edit.delete id).Turns s.nextId f) (fun f' => f' = f) True
      ((Edit.delete id).run s) := by
  by_cases hid : s.contains id = true
  · obtain ⟨C, l, b, r, fields, rfl⟩ := h.exists_node hid
    refine .bind ((delete_outcome hs h).mono (fun _ _ hd => hd)
      (fun _ hf => hf.elim) fun _ => trivial) ?_
    rintro - t f' - hs' hf' rfl
    exact .done (.refl t) hs' hf' (.delete C l id fields b r)
  · obtain ⟨e, he⟩ := delete_missing hs hid
    exact .unchanged hs h ⟨e, bind_error he⟩ rfl

theorem importOutline_turns (outline : Value) (parent : Option Int) :
    Outcome s ((Edit.importOutline outline parent).Turns s.nextId f)
      ((Edit.importOutline outline parent).Leaves f) True
      ((Edit.importOutline outline parent).run s) := by
  show Outcome s _ _ _ (Store.importOutline outline parent s)
  by_cases hp : ∀ id, parent = some id → s.contains id = true
  · obtain ⟨C, g, rfl, rfl⟩ := h.exists_scope hp
    have ho := importOutline_outcome hs h outline
    rcases hrun : Store.importOutline outline C.parent s with ⟨r, t⟩
    rw [hrun] at ho
    cases ho with
    | done h₁ h₂ h₃ h₄ =>
      obtain ⟨g', rfl, hg⟩ := h₄
      exact .done h₁ h₂ h₃ (.importOutline hg (importOutline_issues hrun).1)
    | failed h₁ h₂ h₃ h₄ => exact .failed h₁ h₂ h₃ (.inr ⟨C, g, rfl, rfl, h₄⟩)
    | spoilt h₁ h₂ h₃ h₄ h₅ => exact .spoilt h₁ h₂ h₃ h₄ h₅
  · simp only [not_forall] at hp
    obtain ⟨id, rfl, hid⟩ := hp
    obtain ⟨r, hr, hnil⟩ := importOutline_missing hs hid outline
    rw [hr]
    cases r with
    | error e => exact .failed (.refl s) hs h (.refl _ f)
    | ok ids =>
      obtain rfl := hnil ids rfl
      exact .done (.refl s) hs h (.nothing outline (some id) f)

end Edits

/-- An edit that succeeds only inserts headings that the database can hold. -/
theorem holdable_of_run {t : Store} {e : Edit} {ids : List Int} (h : e.run s = (.ok ids, t)) :
    e.Holdable s.medium := by
  cases e with
  | insert fields before after =>
    obtain ⟨neighbour, _, hn, k₁⟩ := bind_eq_ok h
    obtain ⟨-, rfl⟩ := lift_eq_ok hn
    obtain ⟨checked, _, hc, k₂⟩ := bind_eq_ok k₁
    obtain ⟨hcheck, rfl⟩ := lift_eq_ok hc
    obtain rfl : fields = checked := Fields.check_eq_ok hcheck
    obtain ⟨id, _, hi, -⟩ := bind_eq_ok k₂
    exact insert_eq_ok hi
  | _ => trivial

/-- What an edit does to the forest that a store shows. -/
theorem edit_turns (hs : s.spoilt = false) (h : s.Shows f) {e : Edit}
    (hh : e.Holdable s.medium) :
    Outcome s (e.Turns s.nextId f) (e.Leaves f) True (e.run s) := by
  cases e with
  | append fields parent => exact append_turns hs h fields parent
  | insert fields before after => exact insert_turns hs h hh before after
  | indent id => exact indent_turns hs h id
  | outdent id => exact outdent_turns hs h id
  | delete id => exact delete_turns hs h id
  | importOutline outline parent => exact importOutline_turns hs h outline parent

/-- An edit of a store that shows a forest. -/
theorem edit_outcome (hs : s.spoilt = false) (h : s.Shows f) (hP : f.All P) {e : Edit}
    (hh : e.Holdable s.medium) :
    Outcome s (fun ids f' => (e.Makes P ids → f'.All P) ∧ s.Answers ids f')
      (fun f' => e.Makes P [] → f'.All P) True (e.run s) :=
  (edit_turns hs h hh).mono (fun _ _ ht => ⟨ht.all hP, answers_of_turns ht⟩)
    (fun _ hl => hl.all hP) fun hr => hr

end Store

end Bylaws
