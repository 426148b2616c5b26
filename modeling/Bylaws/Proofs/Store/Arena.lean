import Bylaws.Proofs.Forest.Edit
import Bylaws.Proofs.Store.Media

/-!
# Arenas

A store in memory can be written to directly, past all that keeps a tree in order: a paragraph can
be put right below itself or below one that lies below it. What holds of such an arena all the same
is that the ids are distinct and that every parent is there (`Anchored`); each single call keeps
it, and so does any sequence of calls (`anchored_arena`).

`arena_deleteSubtree`: in any arena the removal of a stored paragraph ends, and what goes is just
the paragraphs from which the way along the parents leads to it.

1. Whichever id the worklist takes next, it comes to an end, and then it has found what is within
   the subtree (`exhausts`). The closure is one such run (`subtreeIds_run`).
2. An id is within a subtree exactly if the parents lead from it to the topmost one
   (`Anchored.within_iff`).
-/

namespace Bylaws.Store

/-! ## The worklist, in any order -/

/-- What a worklist holds: the ids that are still to be taken, and all that have been found. -/
structure Worklist where
  frontier : List Int
  found : List Int

/-- One id is taken off the frontier, whichever it is, and the ids right below it that are new come
to the frontier and to what has been found. -/
def Takes (ps : List Paragraph) (w w' : Worklist) : Prop :=
  ∃ id rest, w.frontier.Perm (id :: rest) ∧
    w'.frontier.Perm (newBelow ps id w.found ++ rest) ∧
    w'.found.Perm (newBelow ps id w.found ++ w.found)

section Worklist

variable {ps : List Paragraph} {top : Int}

/-- The invariant is about what lists hold, not about their order. -/
theorem Collects.perm {frontier frontier' found found' : List Int}
    (h : Collects ps top frontier found) (hf : frontier.Perm frontier')
    (hd : found.Perm found') : Collects ps top frontier' found' where
  top_mem := hd.mem_iff.1 h.top_mem
  frontier_subset := fun _ hx => hd.mem_iff.1 (h.frontier_subset (hf.mem_iff.2 hx))
  within := fun id hid => h.within id (hd.mem_iff.2 hid)
  complete := fun p hp id hid hmem hnot =>
    hd.mem_iff.1 (h.complete p hp id hid (hd.mem_iff.2 hmem) fun hx => hnot (hf.mem_iff.1 hx))

theorem Collects.takes {w w' : Worklist} (h : Collects ps top w.frontier w.found)
    (ht : Takes ps w w') : Collects ps top w'.frontier w'.found := by
  obtain ⟨id, rest, hf, hf', hd'⟩ := ht
  exact (h.perm hf (.refl _)).step.perm hf'.symm hd'.symm

theorem length_missing_perm {found found' : List Int} (h : found.Perm found') :
    (missing ps found).length = (missing ps found').length := by
  unfold missing
  refine congrArg List.length (List.filter_congr fun p _ => ?_)
  rw [Bool.eq_iff_iff]
  simp [h.mem_iff]

/-- Every step leaves fewer ids to be taken or to be found. -/
theorem Takes.decreases {w w' : Worklist} (h : Takes ps w w') :
    w'.frontier.length + (missing ps w'.found).length <
      w.frontier.length + (missing ps w.found).length := by
  obtain ⟨id, rest, hf, hf', hd'⟩ := h
  have hnew := @length_newBelow_add_missing ps id w.found
  rw [hf.length_eq, hf'.length_eq, length_missing_perm hd', List.length_cons, List.length_append]
  omega

/-- As long as there is a frontier, an id can be taken. -/
theorem exists_takes {w : Worklist} (h : w.frontier ≠ []) : ∃ w', Takes ps w w' := by
  obtain ⟨id, rest, hf⟩ := List.exists_cons_of_ne_nil h
  exact ⟨⟨newBelow ps id w.found ++ rest, newBelow ps id w.found ++ w.found⟩,
    id, rest, .of_eq hf, .refl _, .refl _⟩

theorem Collects.run {w w' : Worklist} (h : Collects ps top w.frontier w.found)
    (hr : Relation.ReflTransGen (Takes ps) w w') : Collects ps top w'.frontier w'.found := by
  induction hr with
  | refl => exact h
  | tail _ ht ih => exact ih.takes ht

/-- The worklist that begins with one id comes to an end whichever id it takes next, and then it has
found just some ids. -/
def Exhausts (ps : List Paragraph) (top : Int) (ids : Int → Prop) : Prop :=
  Acc (flip (Takes ps)) ⟨[top], [top]⟩ ∧
    ∀ w, Relation.ReflTransGen (Takes ps) ⟨[top], [top]⟩ w → (∀ w', ¬ Takes ps w w') →
      w.frontier = [] ∧ ∀ id, id ∈ w.found ↔ ids id

theorem exhausts (ps : List Paragraph) (top : Int) : Exhausts ps top (Within ps top) := by
  constructor
  · have hwf := (measure fun w : Worklist => w.frontier.length + (missing ps w.found).length).wf
    exact Subrelation.accessible (fun h => Takes.decreases h) (hwf.apply _)
  · intro w hr hend
    have hnil : w.frontier = [] := by
      by_contra hne
      obtain ⟨w', ht⟩ := exists_takes hne
      exact hend w' ht
    have hc := (collects_start ps top).run hr
    rw [hnil] at hc
    exact ⟨hnil, fun id => ⟨hc.within id, hc.mem_of_within⟩⟩

/-- With enough steps the closure is the worklist run to its end. -/
theorem closure_run {fuel : Nat} {frontier found : List Int}
    (hf : frontier.length + (missing ps found).length ≤ fuel) :
    Relation.ReflTransGen (Takes ps) ⟨frontier, found⟩ ⟨[], closure ps fuel frontier found⟩ := by
  induction fuel generalizing frontier found with
  | zero =>
    have hnil : frontier = [] := List.eq_nil_of_length_eq_zero (by omega)
    subst hnil
    exact .refl
  | succ fuel ih =>
    cases frontier with
    | nil => exact .refl
    | cons id frontier =>
      have ht : Takes ps ⟨id :: frontier, found⟩
          ⟨newBelow ps id found ++ frontier, newBelow ps id found ++ found⟩ :=
        ⟨id, frontier, .refl _, .refl _, .refl _⟩
      exact .head ht (ih (Nat.le_of_lt_succ (ht.decreases.trans_le hf)))

theorem subtreeIds_run {s : Store} (hm : s.medium = .memory) (top : Int) :
    Relation.ReflTransGen (Takes s.paragraphs) ⟨[top], [top]⟩ ⟨[], s.subtreeIds top⟩ := by
  unfold subtreeIds
  rw [hm]
  refine closure_run ?_
  have hle : (missing s.paragraphs [top]).length ≤ s.paragraphs.length := List.length_filter_le _ _
  rw [List.length_singleton]
  omega

end Worklist

/-! ## Calls -/

/-- A write that goes straight to the store. -/
inductive Call where
  | create (parent : Option Int) (position : Int) (fields : Fields)
  | move (id position : Int) (parent : Option Int)
  | deleteSubtree (id : Int)

/-- The store after a call, whether the call is answered or refused. -/
def Call.perform (s : Store) : Call → Store
  | .create parent position fields => (Store.create parent position fields s).2
  | .move id position parent => (Store.move id position parent s).2
  | .deleteSubtree id => (Store.deleteSubtree id s).2

/-- The store in memory that some calls in a row leave behind. -/
def arena (documentId : String) (calls : List Call) : Store :=
  calls.foldl Call.perform { documentId }

/-- The parent of the paragraph with an id. -/
def parent? (s : Store) (id : Int) : Option Int := (s.find? id).bind (·.parent)

/-- The way along the parents leads from one id to another. -/
def Leads (s : Store) : Int → Int → Prop :=
  Relation.ReflTransGen fun id id' => s.parent? id = some id'

/-- Ids are distinct and have been issued, and every parent is there. -/
structure Anchored (s : Store) : Prop where
  medium_eq : s.medium = .memory
  holds : s.Holds s.paragraphs
  parents : ∀ p ∈ s.paragraphs, ∀ id, p.parent = some id → s.contains id = true

namespace Anchored

variable {s : Store}

theorem nodup (h : s.Anchored) : (s.paragraphs.map (·.id)).Nodup :=
  Multiset.coe_nodup.1 h.holds.nodup

theorem find?_eq (h : s.Anchored) {p : Paragraph} (hp : p ∈ s.paragraphs) :
    s.find? p.id = some p := by
  obtain ⟨q, hq⟩ := Option.isSome_iff_exists.1 (contains_iff_exists.2 ⟨p, hp, rfl⟩)
  have hid : q.id = p.id := by simpa using List.find?_some hq
  rw [hq, List.inj_on_of_nodup_map h.nodup (List.mem_of_find?_eq_some hq) hp hid]

theorem parent?_eq (h : s.Anchored) {p : Paragraph} (hp : p ∈ s.paragraphs) :
    s.parent? p.id = p.parent := by
  unfold parent?
  rw [h.find?_eq hp]
  rfl

/-- What is within a subtree is what the parents lead to its topmost paragraph from. -/
theorem within_iff (h : s.Anchored) {top id : Int} :
    Within s.paragraphs top id ↔ s.Leads id top := by
  constructor
  · rintro (rfl | ⟨p, hp, rfl⟩)
    · exact .refl
    · induction hp with
      | child hp hparent => exact .single ((h.parent?_eq hp).trans hparent)
      | deeper _ hp hparent ih => exact .head ((h.parent?_eq hp).trans hparent) ih
  · intro hl
    induction hl using Relation.ReflTransGen.head_induction_on with
    | refl => exact .inl rfl
    | @head x y hstep _ ih =>
      obtain ⟨p, hf, hparent⟩ := Option.bind_eq_some_iff.1 hstep
      have hid : p.id = x := by simpa using List.find?_some hf
      exact .inr ⟨p, ih.below (List.mem_of_find?_eq_some hf) hparent, hid⟩

theorem mem_without_iff (h : s.Anchored) {top : Int} {p : Paragraph} :
    p ∈ (s.without top).paragraphs ↔ p ∈ s.paragraphs ∧ ¬ s.Leads p.id top := by
  rw [paragraphs_without, List.mem_filter, ← h.within_iff, ← mem_subtreeIds]
  simp

/-! ## What a call keeps -/

theorem empty (documentId : String) : Anchored { documentId } where
  medium_eq := rfl
  holds := ⟨rfl, List.nodup_nil, fun _ hp => absurd hp List.not_mem_nil,
    fun _ hp => absurd hp List.not_mem_nil⟩
  parents := fun _ hp => absurd hp List.not_mem_nil

theorem added (h : s.Anchored) {parent : Option Int} (position : Int) (fields : Fields)
    (hp : ∀ id, parent = some id → s.contains id = true) :
    (s.added parent position fields).Anchored where
  medium_eq := h.medium_eq
  holds := by
    have hnew : (s.added parent position fields).Holds
        (s.paragraphs + {Forest.row s.documentId parent position s.nextId fields}) :=
      h.holds.added (canHold_of_memory h.medium_eq position fields.heading)
    rwa [← Multiset.coe_singleton, Multiset.coe_add, ← paragraphs_added] at hnew
  parents := by
    intro q hq id hid
    have hc : s.contains id = true := by
      rw [paragraphs_added] at hq
      rcases List.mem_append.1 hq with hq | hq
      · exact h.parents q hq id hid
      · rw [List.mem_singleton.1 hq] at hid
        exact hp id hid
    obtain ⟨r, hr, hrid⟩ := contains_iff_exists.1 hc
    rw [contains_iff_exists, paragraphs_added]
    exact ⟨r, List.mem_append_left _ hr, hrid⟩

theorem moved (h : s.Anchored) (id position : Int) {parent : Option Int}
    (hp : ∀ id, parent = some id → s.contains id = true) :
    { s with rows := s.rows.map (moveRow s.documentId id position parent) }.Anchored := by
  have hmap : { s with rows := s.rows.map (moveRow s.documentId id position parent) }.paragraphs =
      s.paragraphs.map (moveRow s.documentId id position parent) :=
    paragraphs_map (moveRow_documentId _ _ _ _)
  refine ⟨h.medium_eq, ⟨rfl, ?_, ?_, ?_⟩, ?_⟩
  · rw [hmap, Multiset.map_coe, Multiset.coe_nodup, List.map_map]
    rw [show (fun p : Paragraph => p.id) ∘ moveRow s.documentId id position parent =
      fun p => p.id from funext fun p => moveRow_id _ _ _ _ p]
    exact h.nodup
  · intro q hq
    obtain ⟨p, hp, rfl⟩ := List.mem_map.1 hq
    rw [moveRow_id]
    exact h.holds.issued p hp
  · intro q _
    exact canHold_of_memory h.medium_eq _ _
  · intro q hq x hx
    rw [contains_move]
    rw [hmap] at hq
    obtain ⟨p, hpmem, rfl⟩ := List.mem_map.1 hq
    unfold moveRow at hx
    split at hx
    · exact hp x hx
    · exact h.parents p hpmem x hx

/-- No paragraph that stays is right below one that goes. -/
theorem without (h : s.Anchored) (top : Int) : (s.without top).Anchored := by
  have hsub : (s.without top).paragraphs.Sublist s.paragraphs := by
    rw [paragraphs_without]
    exact List.filter_sublist
  refine ⟨h.medium_eq, ⟨rfl, ?_, ?_, ?_⟩, ?_⟩
  · exact Multiset.coe_nodup.2 ((hsub.map _).nodup h.nodup)
  · exact fun p hp => h.holds.issued p (List.mem_of_mem_filter hp)
  · exact fun p _ => canHold_of_memory h.medium_eq _ _
  · intro p hp id hid
    obtain ⟨hp, hnot⟩ := h.mem_without_iff.1 hp
    obtain ⟨q, hq, rfl⟩ := contains_iff_exists.1 (h.parents p hp id hid)
    refine contains_iff_exists.2 ⟨q, h.mem_without_iff.2 ⟨hq, fun hl => hnot ?_⟩, rfl⟩
    exact .head ((h.parent?_eq hp).trans hid) hl

theorem perform (h : s.Anchored) (call : Call) : (call.perform s).Anchored := by
  cases call with
  | create parent position fields =>
    show (Store.create parent position fields s).2.Anchored
    rcases create_cases_of_memory h.medium_eq parent position fields with hok | ⟨_, herr⟩
    · rw [hok]
      exact h.added position fields (create_eq_added hok).2.2
    · rw [herr]
      exact h
  | move id position parent =>
    show (Store.move id position parent s).2.Anchored
    rcases move_cases_of_memory h.medium_eq id position parent with hok | ⟨_, herr⟩
    · rw [hok]
      exact h.moved id position (contains_of_move hok).2
    · rw [herr]
      exact h
  | deleteSubtree id =>
    show (Store.deleteSubtree id s).2.Anchored
    rcases deleteSubtree_cases id s with hd | hd
    · rw [hd]
      exact h.without id
    · rw [hd]
      exact h

end Anchored

theorem anchored_arena (documentId : String) (calls : List Call) :
    (arena documentId calls).Anchored := by
  have key : ∀ s : Store, s.Anchored → (calls.foldl Call.perform s).Anchored := by
    induction calls with
    | nil => exact fun _ h => h
    | cons call calls ih => exact fun s h => ih _ (h.perform call)
  exact key _ (.empty documentId)

/-! ## Removing a subtree of an arena -/

/-- Whatever calls have made an arena, ids are distinct in it and every parent is there. To remove a
stored paragraph takes a worklist that ends whichever id it takes next, always with the same ids;
the paragraphs that go are just those from which the parents lead to the removed one, and nothing
else changes. -/
theorem arena_deleteSubtree (documentId : String) (calls : List Call) (top : Int)
    (h : (arena documentId calls).contains top = true) :
    let s := arena documentId calls
    (s.paragraphs.map (·.id)).Nodup ∧
    (∀ p ∈ s.paragraphs, ∀ id, p.parent = some id → s.contains id = true) ∧
    Exhausts s.paragraphs top (s.Leads · top) ∧
    Relation.ReflTransGen (Takes s.paragraphs) ⟨[top], [top]⟩ ⟨[], s.subtreeIds top⟩ ∧
    ∃ t, deleteSubtree top s = (.ok (), t) ∧ t = { s with rows := t.rows } ∧
      t.paragraphs.Sublist s.paragraphs ∧
      ∀ p, p ∈ t.paragraphs ↔ p ∈ s.paragraphs ∧ ¬ s.Leads p.id top := by
  intro s
  have hs : s.Anchored := anchored_arena documentId calls
  obtain ⟨p, hp⟩ := Option.isSome_iff_exists.1 h
  refine ⟨hs.nodup, hs.parents, ?_, subtreeIds_run hs.medium_eq top, s.without top,
    deleteSubtree_ok (get_ok hp), rfl, ?_, fun q => hs.mem_without_iff⟩
  · obtain ⟨hacc, hend⟩ := exhausts s.paragraphs top
    refine ⟨hacc, fun w hr hstop => ?_⟩
    obtain ⟨hnil, hfound⟩ := hend w hr hstop
    exact ⟨hnil, fun id => (hfound id).trans hs.within_iff⟩
  · rw [paragraphs_without]
    exact List.filter_sublist

/-- Two paragraphs that lie below each other go together, with nothing around them. -/
theorem arena_deleteSubtree_cycle :
    let calls : List Call :=
      [.create none 1 {}, .create (some 1) 1 {}, .create none 2 {}, .move 1 1 (some 2)]
    (arena "bylaws" calls).contains 1 = true ∧
      (arena "bylaws" calls).parent? 1 = some 2 ∧ (arena "bylaws" calls).parent? 2 = some 1 ∧
      ∃ t, deleteSubtree 1 (arena "bylaws" calls) = (.ok (), t) ∧
        t.paragraphs.map (·.id) = [3] := by
  intro calls
  have hc : (arena "bylaws" calls).contains 1 = true := by decide
  refine ⟨hc, by decide, by decide, ?_⟩
  obtain ⟨-, -, -, -, t, ht, -⟩ := arena_deleteSubtree "bylaws" calls 1 hc
  have hrun : t = (deleteSubtree 1 (arena "bylaws" calls)).2 := (congrArg Prod.snd ht).symm
  refine ⟨t, ht, ?_⟩
  rw [hrun]
  decide

end Bylaws.Store
