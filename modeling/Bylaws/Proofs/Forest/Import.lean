import Bylaws.Forest.Import
import Bylaws.Proofs.Forest.Edit

/-!
# Imports as growth of the forest

An import adds nodes after those in one place: a text makes the next node there, and a list
grows what is below the last node made. `importItems_outcome` follows the recursion of the
import, and `Grows` relates what has been added to the elements of the outline that are not
lists, each with the depth at which it is nested.
-/

namespace Bylaws

/-- The fields that an element of an outline makes a paragraph of. -/
def Value.fields (v : Value) : Except Fault Fields := do Fields.ofText (← v.outlineText)

mutual

/-- The elements of an outline that are not lists, each with its depth. -/
def Value.leaves (depth : Nat) : Value → List (Value × Nat)
  | .list items => leavesIn (depth + 1) items
  | .tuple items => leavesIn (depth + 1) items
  | .loop _ v => v.leaves depth
  | .again _ => []
  | v => [(v, depth)]

/-- The elements of a list that are not lists, each with its depth. -/
def leavesIn (depth : Nat) : List Value → List (Value × Nat)
  | [] => []
  | v :: rest => v.leaves depth ++ leavesIn depth rest

end

namespace Store

open Forest

variable {s t : Store}

/-- A forest has grown at its end by one line for each of some elements. -/
def Grows (depth : Nat) (leaves : List (Value × Nat)) (ids : List Int) (g g' : Forest) : Prop :=
  ∃ new : List Line, g'.lines depth = g.lines depth ++ new ∧ new.map Line.id = ids ∧
    List.Forall₂ (fun e l => e.1.fields = .ok l.fields ∧ e.2 = l.depth) leaves new

theorem Grows.refl (depth : Nat) (g : Forest) : Grows depth [] [] g g :=
  ⟨[], (List.append_nil _).symm, rfl, .nil⟩

theorem Grows.trans {depth : Nat} {leaves leaves' : List (Value × Nat)} {ids ids' : List Int}
    {g g' g'' : Forest} (h : Grows depth leaves ids g g') (h' : Grows depth leaves' ids' g' g'') :
    Grows depth (leaves ++ leaves') (ids ++ ids') g g'' := by
  obtain ⟨new, hl, hi, hf⟩ := h
  obtain ⟨new', hl', hi', hf'⟩ := h'
  refine ⟨new ++ new', ?_, ?_, List.rel_append hf hf'⟩
  · rw [hl', hl, List.append_assoc]
  · rw [List.map_append, hi, hi']

/-- A forest whose last tree grows below its root grows at its end. -/
theorem Grows.below {depth : Nat} {leaves : List (Value × Nat)} {ids : List Int}
    {g b b' : Forest} {id : Int} {fields : Fields} (h : Grows (depth + 1) leaves ids b b') :
    Grows depth leaves ids (g ++ tree id fields b) (g ++ tree id fields b') := by
  obtain ⟨new, hl, hi, hf⟩ := h
  refine ⟨new, ?_, hi, hf⟩
  rw [lines_append, lines_append, lines_tree, lines_tree, hl, List.append_assoc]
  rfl

theorem Grows.leaf {depth : Nat} {v : Value} {fields : Fields} (h : v.fields = .ok fields)
    (g : Forest) (id : Int) :
    Grows depth [(v, depth)] [id] g (g ++ tree id fields nil) := by
  refine ⟨[⟨id, fields, depth⟩], ?_, rfl, .cons ⟨h, rfl⟩ .nil⟩
  rw [lines_append, lines_tree]
  rfl

/-- A cursor is at the end of a place: at the next position, behind the last node there or with
none made yet. -/
structure Cursor.At (c : Cursor) (g : Forest) : Prop where
  position_eq : c.position = 1 + g.width
  last_eq : ∀ id, c.last = some id → ∃ g' fields b, g = g' ++ tree id fields b

theorem Cursor.At.leaf {c : Cursor} {g : Forest} (hc : c.At g) (id : Int) (fields : Fields) :
    Cursor.At { position := c.position + 1, last := some id } (g ++ tree id fields nil) where
  position_eq := by
    have h := hc.position_eq
    rw [width_append, width_tree]
    show c.position + 1 = _
    omega
  last_eq := by
    intro id' h
    obtain rfl := Option.some.inj h
    exact ⟨g, fields, nil, rfl⟩

/-- What grows below the last node leaves the cursor where it is. -/
theorem Cursor.At.below {c : Cursor} {g b : Forest} {id : Int} {fields : Fields}
    (hc : c.At (g ++ tree id fields b)) (hl : c.last = some id) (b' : Forest) :
    c.At (g ++ tree id fields b') where
  position_eq := by
    have h := hc.position_eq
    rw [width_append, width_tree] at h ⊢
    exact h
  last_eq := by
    intro id' h
    obtain rfl := Option.some.inj (hl.symm.trans h)
    exact ⟨g, fields, b', rfl⟩

/-- What an import in progress has made of a place. -/
def Imported (C : Hole) (g : Forest) (leaves : List (Value × Nat)) (ids : List Int) (c : Cursor)
    (f : Forest) : Prop :=
  ∃ g', f = C.plug g' ∧ c.At g' ∧ Grows C.depth leaves ids g g'

/-- What an import that fails may leave in a place: the elements before the fault. -/
def Partly (C : Hole) (g f : Forest) : Prop :=
  ∃ g' leaves ids, f = C.plug g' ∧ Grows C.depth leaves ids g g'

theorem Partly.refl (C : Hole) (g : Forest) : Partly C g (C.plug g) :=
  ⟨g, [], [], rfl, .refl C.depth g⟩

theorem Grows.partly {C : Hole} {g g' f : Forest} {leaves : List (Value × Nat)} {ids : List Int}
    (h : Grows C.depth leaves ids g g') (hf : Partly C g' f) : Partly C g f := by
  obtain ⟨g'', leaves', ids', rfl, h'⟩ := hf
  exact ⟨g'', leaves ++ leaves', ids ++ ids', rfl, h.trans h'⟩

theorem Partly.below {C : Hole} {g b f : Forest} {id : Int} {fields : Fields}
    (hf : Partly (.under g id fields nil C) b f) : Partly C (g ++ tree id fields b) f := by
  obtain ⟨b', leaves, ids, rfl, h⟩ := hf
  exact ⟨g ++ tree id fields b', leaves, ids, rfl, h.below⟩

section Import

variable {C : Hole} {g : Forest} {c : Cursor}

/-- An element that is not a list becomes the next paragraph. -/
theorem leaf_outcome (hs : s.spoilt = false) (hi : s.medium = .database → s.inTransaction = true)
    (h : s.Shows (C.plug g)) (hc : c.At g) (v : Value) :
    Outcome s (fun a f => Imported C g [(v, C.depth)] a.1 a.2 f) (Partly C g) True
      ((do
        let fields ← Fields.ofText (← v.outlineText)
        let id ← create C.parent c.position fields
        return ([id], { position := c.position + 1, last := some id }) :
          StoreM (List Int × Cursor)) s) := by
  refine .lift_bind hs h (.refl C g) fun text ht => .lift_bind hs h (.refl C g) ?_
  intro fields hf
  have hv : v.fields = .ok fields := by
    unfold Value.fields
    rw [ht]
    exact hf
  rw [hc.position_eq]
  refine Outcome.bind ((create_outcome hs hi h fields).mono (fun _ _ hd => hd)
    (fun _ hf => hf.1 ▸ .refl C g) fun _ => trivial) ?_
  rintro id t f hfol hs' hf' ⟨rfl, rfl⟩
  have hcur := hc.leaf s.nextId fields
  rw [hc.position_eq] at hcur
  exact .done (.refl t) hs' hf' ⟨_, rfl, hcur, .leaf hv g s.nextId⟩

/-- A list goes below the last paragraph made at its level, and fails if there is none. -/
theorem enter_outcome (hs : s.spoilt = false) (h : s.Shows (C.plug g)) (hc : c.At g)
    (items : List Value) :
    Outcome s
      (fun a f => f = C.plug g ∧ c.last = some a.1 ∧
        ∃ g' fields b, g = g' ++ tree a.1 fields b ∧ a.2.At b)
      (Partly C g) True (enter c items s) := by
  unfold enter
  cases hl : c.last with
  | none => exact .failed (.refl s) hs h (.refl C g)
  | some id =>
    obtain ⟨g', fields, b, rfl⟩ := hc.last_eq id hl
    have hcount : s.childCount (some id) = b.width := Shows.under h |>.childCount_eq
    refine .done (.refl s) hs h ⟨rfl, rfl, g', fields, b, rfl, ⟨?_, nofun⟩⟩
    show (s.childCount (some id) : Int) + 1 = _
    rw [hcount, Int.add_comm]

/-- The elements of a list grow what is below the last paragraph made. -/
theorem nested_outcome (hs : s.spoilt = false) (h : s.Shows (C.plug g)) (hc : c.At g)
    (items : List Value) {leaves : List (Value × Nat)}
    {run : Int → Cursor → StoreM (List Int)}
    (hrun : ∀ {t : Store} {C' : Hole} {b : Forest} {c' : Cursor} {id : Int}, s.Follows t →
      t.spoilt = false → t.Shows (C'.plug b) → c'.At b → C'.parent = some id →
      C'.depth = C.depth + 1 →
      Outcome t (fun ids f => ∃ b', f = C'.plug b' ∧ Grows (C.depth + 1) leaves ids b b')
        (Partly C' b) True (run id c' t)) :
    Outcome s (fun a f => Imported C g leaves a.1 a.2 f) (Partly C g) True
      ((do
        let (id, c₁) ← enter c items
        return (← run id c₁, c) : StoreM (List Int × Cursor)) s) := by
  refine Outcome.bind (enter_outcome hs h hc items) ?_
  rintro ⟨id, c'⟩ t f hfol hs' hf' ⟨rfl, hl, g', fields, b, rfl, hin⟩
  refine Outcome.bind ((hrun hfol hs' hf'.under hin rfl rfl).mono (fun _ _ hd => hd)
    (fun _ hp => hp.below) fun _ => trivial) ?_
  rintro ids u f _ hs'' hf'' ⟨b', rfl, hg⟩
  exact .done (.refl u) hs'' hf'' ⟨g' ++ tree id fields b', rfl, hc.below hl b', hg.below⟩

mutual

theorem importItem_outcome (around : List (Nat × Value)) {s : Store} {C : Hole} {g : Forest}
    {c : Cursor} (hs : s.spoilt = false) (hi : s.medium = .database → s.inTransaction = true)
    (h : s.Shows (C.plug g)) (hc : c.At g) : (v : Value) →
    Outcome s (fun a f => Imported C g (v.leaves C.depth) a.1 a.2 f) (Partly C g) True
      (importItem around C.parent c v s)
  | .list items =>
    nested_outcome hs h hc _ fun {t C' b c' id} hfol hs' hf' hc' hp hd => by
      have hrec := importItems_outcome around hs' (hfol.inTransaction hi) hf' hc' items
      rwa [hp, hd] at hrec
  | .tuple items =>
    nested_outcome hs h hc _ fun {t C' b c' id} hfol hs' hf' hc' hp hd => by
      have hrec := importItems_outcome around hs' (hfol.inTransaction hi) hf' hc' items
      rwa [hp, hd] at hrec
  | .loop label v => importItem_outcome _ hs hi h hc v
  | .again label => by
    refine Outcome.bind (enter_outcome hs h hc _) ?_
    rintro a t f _ hs' hf' ⟨rfl, -⟩
    exact .failed (.refl t) hs' hf' (.refl C g)
  | .null => leaf_outcome hs hi h hc .null
  | .bool b => leaf_outcome hs hi h hc (.bool b)
  | .int n => leaf_outcome hs hi h hc (.int n)
  | .float x => leaf_outcome hs hi h hc (.float x)
  | .text t => leaf_outcome hs hi h hc (.text t)
  | .dict entries => leaf_outcome hs hi h hc (.dict entries)
  | .set items => leaf_outcome hs hi h hc (.set items)
  | .constant v => leaf_outcome hs hi h hc (.constant v)
  | .date d => leaf_outcome hs hi h hc (.date d)
  | .moment t => leaf_outcome hs hi h hc (.moment t)
  | .bytes bs => leaf_outcome hs hi h hc (.bytes bs)

theorem importItems_outcome (around : List (Nat × Value)) {s : Store} {C : Hole} {g : Forest}
    {c : Cursor} (hs : s.spoilt = false) (hi : s.medium = .database → s.inTransaction = true)
    (h : s.Shows (C.plug g)) (hc : c.At g) : (items : List Value) →
    Outcome s (fun ids f => ∃ g', f = C.plug g' ∧ Grows C.depth (leavesIn C.depth items) ids g g')
      (Partly C g) True (importItems around C.parent c items s)
  | [] => .done (.refl s) hs h ⟨g, rfl, .refl C.depth g⟩
  | v :: rest => by
    refine Outcome.bind (importItem_outcome around hs hi h hc v) ?_
    rintro ⟨ids, c'⟩ t f hfol hs' hf' ⟨g', rfl, hc', hg⟩
    refine Outcome.bind ((importItems_outcome around hs' (hfol.inTransaction hi) hf' hc'
      rest).mono (fun _ _ hd => hd) (fun _ hp => hg.partly hp) fun _ => trivial) ?_
    rintro ids' u f _ hs'' hf'' ⟨g'', rfl, hg'⟩
    exact .done (.refl u) hs'' hf'' ⟨g'', rfl, hg.trans hg'⟩

end

/-- An import grows one place at its end, or fails. -/
theorem importOutline_outcome (hs : s.spoilt = false) (h : s.Shows (C.plug g)) (outline : Value) :
    Outcome s
      (fun ids f => ∃ g', f = C.plug g' ∧
        Grows C.depth (leavesIn C.depth (outline.members?.getD [])) ids g g')
      (Partly C g) True (importOutline outline C.parent s) := by
  have ho := h.opened
  have hs' := (spoilt_opened s).trans hs
  unfold importOutline
  refine .transaction h (fun _ _ => .refl C g) (fun _ => .refl C g) ?_
  cases outline.members? with
  | none => exact .failed (.refl _) hs' ho (.refl C g)
  | some items =>
    show Outcome s.opened _ _ _ ((MonadState.get >>= fun s => liftM (s.nextPosition C.parent) >>=
      fun position => importItems [] C.parent { position } items) s.opened)
    rw [bind_ok get_run]
    refine .lift_bind hs' ho (.refl C g) ?_
    intro position hp
    have hn : s.opened.nextPosition C.parent = .ok (1 + g.width) := ho.nextPosition_eq
    obtain rfl : 1 + (g.width : Int) = position := by
      rw [hn] at hp
      exact Except.ok.inj hp
    have hc : Cursor.At { position := 1 + g.width } g := ⟨rfl, fun _ hl => nomatch hl⟩
    exact importItems_outcome [] hs' (opened_inTransaction s) ho
      hc items

end Import

/-! ## New ids -/

/-- Ids in a row. -/
def issued (first : Int) : Nat → List Int
  | 0 => []
  | n + 1 => first :: issued (first + 1) n

theorem issued_add (first : Int) (m n : Nat) :
    issued first (m + n) = issued first m ++ issued (first + m) n := by
  induction m generalizing first with
  | zero =>
    rw [Nat.zero_add, Int.natCast_zero, Int.add_zero]
    rfl
  | succ m ih =>
    have h : first + 1 + (m : Int) = first + ((m + 1 : Nat) : Int) := by omega
    rw [Nat.succ_add, issued, issued, ih, h, List.cons_append]

theorem mem_issued {first id : Int} {n : Nat} :
    id ∈ issued first n ↔ first ≤ id ∧ id < first + n := by
  induction n generalizing first with
  | zero =>
    refine ⟨nofun, ?_⟩
    intro h
    omega
  | succ n ih =>
    rw [issued, List.mem_cons, ih]
    omega

theorem pairwise_issued (first : Int) (n : Nat) : (issued first n).Pairwise (· < ·) := by
  induction n generalizing first with
  | zero => exact .nil
  | succ n ih =>
    refine List.pairwise_cons.2 ⟨?_, ih (first + 1)⟩
    intro id hid
    have := (mem_issued.1 hid).1
    omega

/-- The ids answered are those issued on the way from one store to a later one. -/
def Issues (s : Store) (ids : List Int) (t : Store) : Prop :=
  ids = issued s.nextId ids.length ∧ t.nextId = s.nextId + ids.length

theorem Issues.trans {u : Store} {ids ids' : List Int} (h : s.Issues ids t)
    (h' : t.Issues ids' u) : s.Issues (ids ++ ids') u := by
  obtain ⟨h₁, h₂⟩ := h
  obtain ⟨h₁', h₂'⟩ := h'
  constructor
  · rw [List.length_append, issued_add, ← h₁, ← h₂, ← h₁']
  · rw [h₂', h₂, List.length_append]
    omega

theorem leaf_issues {parent : Option Int} {c : Cursor} {v : Value} {a : List Int × Cursor}
    (h : (do
      let fields ← Fields.ofText (← v.outlineText)
      let id ← create parent c.position fields
      return ([id], { position := c.position + 1, last := some id }) :
        StoreM (List Int × Cursor)) s = (.ok a, t)) : s.Issues a.1 t := by
  obtain ⟨_, _, h₁, k₁⟩ := bind_eq_ok h
  obtain ⟨-, rfl⟩ := lift_eq_ok h₁
  obtain ⟨_, _, h₂, k₂⟩ := bind_eq_ok k₁
  obtain ⟨-, rfl⟩ := lift_eq_ok h₂
  obtain ⟨id, u, h₃, k₃⟩ := bind_eq_ok k₂
  obtain ⟨rfl, hn, -⟩ := create_eq_ok h₃
  cases k₃
  exact ⟨rfl, hn⟩

theorem enter_eq_ok {c : Cursor} {items : List Value} {a : Int × Cursor}
    (h : enter c items s = (.ok a, t)) : t = s := by
  unfold enter at h
  cases hl : c.last with
  | none =>
    rw [hl] at h
    exact nomatch h
  | some id =>
    rw [hl] at h
    cases h
    rfl

theorem nested_issues {c : Cursor} {items : List Value} {a : List Int × Cursor}
    (run : Int → Cursor → StoreM (List Int))
    (hrun : ∀ id c' ids, run id c' s = (.ok ids, t) → s.Issues ids t)
    (h : (do
      let (id, c₁) ← enter c items
      return (← run id c₁, c) : StoreM (List Int × Cursor)) s = (.ok a, t)) :
    s.Issues a.1 t := by
  obtain ⟨⟨id, c₁⟩, u, h₁, k₁⟩ := bind_eq_ok h
  obtain rfl := enter_eq_ok h₁
  obtain ⟨ids, w, h₂, k₂⟩ := bind_eq_ok k₁
  cases k₂
  exact hrun id c₁ ids h₂

mutual

theorem importItem_issues (around : List (Nat × Value)) {s t : Store} {parent : Option Int}
    {c : Cursor} {a : List Int × Cursor} : (v : Value) →
    importItem around parent c v s = (.ok a, t) → s.Issues a.1 t
  | .list items => fun h => by
    unfold importItem at h
    exact nested_issues (fun id c₁ => importItems around (some id) c₁ items)
      (fun _ _ _ h => importItems_issues around items h) h
  | .tuple items => fun h => by
    unfold importItem at h
    exact nested_issues (fun id c₁ => importItems around (some id) c₁ items)
      (fun _ _ _ h => importItems_issues around items h) h
  | .loop _ v => importItem_issues _ v
  | .again _ => fun h => by
    obtain ⟨_, _, _, h⟩ := bind_eq_ok h
    exact nomatch h
  | .null => leaf_issues
  | .bool _ => leaf_issues
  | .int _ => leaf_issues
  | .float _ => leaf_issues
  | .text _ => leaf_issues
  | .dict _ => leaf_issues
  | .set _ => leaf_issues
  | .constant _ => leaf_issues
  | .date _ => leaf_issues
  | .moment _ => leaf_issues
  | .bytes _ => leaf_issues

theorem importItems_issues (around : List (Nat × Value)) {s t : Store} {parent : Option Int}
    {c : Cursor} {ids : List Int} : (items : List Value) →
    importItems around parent c items s = (.ok ids, t) → s.Issues ids t
  | [] => fun h => by
    cases h
    exact ⟨rfl, (Int.add_zero _).symm⟩
  | v :: rest => fun h => by
    obtain ⟨⟨ids₁, c'⟩, u, h₁, h⟩ := bind_eq_ok h
    obtain ⟨ids₂, w, h₂, h⟩ := bind_eq_ok h
    cases h
    exact (importItem_issues around v h₁).trans (importItems_issues around rest h₂)

end

/-- The ids that an import answers are the next ones in a row. -/
theorem importOutline_issues {outline : Value} {parent : Option Int} {ids : List Int}
    (h : importOutline outline parent s = (.ok ids, t)) : s.Issues ids t := by
  unfold importOutline at h
  obtain ⟨u, hb, hn⟩ := transaction_eq_ok h
  cases hm : outline.members? with
  | none =>
    rw [hm] at hb
    exact nomatch hb
  | some items =>
    rw [hm] at hb
    obtain ⟨_, _, h₁, k₁⟩ := bind_eq_ok hb
    cases h₁
    obtain ⟨_, _, h₂, k₂⟩ := bind_eq_ok k₁
    obtain ⟨-, rfl⟩ := lift_eq_ok h₂
    have hi := importItems_issues [] items k₂
    unfold Issues at hi ⊢
    rw [nextId_opened] at hi
    rw [hn]
    exact hi

/-! ## Below a paragraph that is not there -/

section Missing

variable {id : Int}

theorem leaf_missing (h : ¬ s.contains id = true) (position : Int) (v : Value) :
    ∃ e, (do
      let fields ← Fields.ofText (← v.outlineText)
      let new ← create (some id) position fields
      return ([new], { position := position + 1, last := some new }) :
        StoreM (List Int × Cursor)) s = (.error e, s) := by
  cases v.outlineText with
  | error e => exact ⟨e, bind_error (lift_error rfl)⟩
  | ok text =>
    rw [bind_ok (lift_ok rfl)]
    cases Fields.ofText text with
    | error e => exact ⟨e, bind_error (lift_error rfl)⟩
    | ok fields =>
      rw [bind_ok (lift_ok rfl)]
      obtain ⟨e, he⟩ := create_missing position fields h
      exact ⟨e, bind_error he⟩

theorem importItem_missing (h : ¬ s.contains id = true) (position : Int) :
    ∀ (around : List (Nat × Value)) (v : Value),
      ∃ e, importItem around (some id) { position } v s = (.error e, s)
  | _, .list _ => ⟨_, rfl⟩
  | _, .tuple _ => ⟨_, rfl⟩
  | _, .loop _ v => importItem_missing h position _ v
  | _, .again _ => ⟨_, rfl⟩
  | _, .null => leaf_missing h position .null
  | _, .bool b => leaf_missing h position (.bool b)
  | _, .int n => leaf_missing h position (.int n)
  | _, .float x => leaf_missing h position (.float x)
  | _, .text t => leaf_missing h position (.text t)
  | _, .dict entries => leaf_missing h position (.dict entries)
  | _, .set items => leaf_missing h position (.set items)
  | _, .constant v => leaf_missing h position (.constant v)
  | _, .date d => leaf_missing h position (.date d)
  | _, .moment t => leaf_missing h position (.moment t)
  | _, .bytes bs => leaf_missing h position (.bytes bs)

/-- Nothing can be imported below a paragraph that is not there. -/
theorem importOutline_missing (hs : s.spoilt = false) (h : ¬ s.contains id = true)
    (outline : Value) :
    ∃ r, importOutline outline (some id) s = (r, s) ∧ ∀ ids, r = .ok ids → ids = [] := by
  rw [← contains_opened] at h
  unfold importOutline
  cases outline.members? with
  | none =>
    exact ⟨.error (.notIterable outline.fullKind), transaction_unchanged hs rfl,
      fun _ hids => nomatch hids⟩
  | some items =>
    cases hp : s.opened.nextPosition (some id) with
    | error e =>
      refine ⟨.error e, transaction_unchanged hs ?_, fun _ hids => nomatch hids⟩
      show (MonadState.get >>= fun s => liftM (s.nextPosition (some id)) >>=
        fun position => importItems [] (some id) { position } items) s.opened = _
      rw [bind_ok get_run, bind_error (lift_error hp)]
    | ok position =>
      cases items with
      | nil =>
        refine ⟨.ok [], transaction_unchanged hs ?_, fun ids hids => (Except.ok.inj hids).symm⟩
        show (MonadState.get >>= fun s => liftM (s.nextPosition (some id)) >>=
          fun position => importItems [] (some id) { position } []) s.opened = _
        rw [bind_ok get_run, bind_ok (lift_ok hp)]
        rfl
      | cons v rest =>
        obtain ⟨e, he⟩ := importItem_missing h position [] v
        refine ⟨.error e, transaction_unchanged hs ?_, fun _ hids => nomatch hids⟩
        show (MonadState.get >>= fun s => liftM (s.nextPosition (some id)) >>=
          fun position => importItem [] (some id) { position } v >>= fun a =>
            importItems [] (some id) a.2 rest >>= fun ids => pure (a.1 ++ ids)) s.opened = _
        rw [bind_ok get_run, bind_ok (lift_ok hp), bind_error he]

end Missing

end Store

end Bylaws
