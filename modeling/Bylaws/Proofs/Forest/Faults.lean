import Bylaws.Proofs.Forest.Concatenation
import Bylaws.Proofs.Machine

/-!
# How an import fails

An import at a place that is there fails for an element that makes no paragraph, for a list with
nothing to lie below, for a collection within itself, or because a database refuses a number
(`importOutline_faults`). A collection that lies within itself has to be in the outline for that
(`Value.isTree`), and where there is none, a value that a fault shows nests no deeper than the
outline.
-/

namespace Bylaws

namespace OnlyFaults

variable {α β : Type} {P : Fault → Prop}

/-- Store operations one after the other. -/
theorem store_bind {x : StoreM α} {f : α → StoreM β} {s : Store} (h : OnlyFaults P (x s).1)
    (hf : ∀ a t, x s = (.ok a, t) → OnlyFaults P (f a t).1) : OnlyFaults P ((x >>= f) s).1 := by
  rcases hx : x s with ⟨e | a, t⟩
  · rw [Store.bind_error hx]
    rw [hx] at h
    exact .error (h e rfl)
  · rw [Store.bind_ok hx]
    exact hf a t hx

/-- Something is looked up before a store operation. -/
theorem lift_bind {x : Except Fault α} {f : α → StoreM β} {s : Store} (h : OnlyFaults P x)
    (hf : ∀ a, x = .ok a → OnlyFaults P (f a s).1) : OnlyFaults P ((liftM x >>= f) s).1 := by
  cases x with
  | error e =>
    rw [Store.bind_error (Store.lift_error rfl)]
    exact .error (h e rfl)
  | ok a =>
    rw [Store.bind_ok (Store.lift_ok rfl)]
    exact hf a rfl

end OnlyFaults

/-! ## Values that hold no collection within itself -/

mutual

/-- Whether no list or tuple in a value, as an import goes through it, lies within itself. -/
def Value.isTree : Value → Bool
  | .list items => areTrees items
  | .tuple items => areTrees items
  | .loop _ _ => false
  | .again _ => false
  | _ => true

def areTrees : List Value → Bool
  | [] => true
  | v :: rest => v.isTree && areTrees rest

end

/-! ## Imports -/

/-- A mistaken value, in a fault that shows no value as a whole. -/
def Fault.IsNumber (e : Fault) : Prop := e.category = .value ∧ ∀ v, e ≠ .unshowable v

/-- How an import may fail on a medium. Where nothing lies within itself, what is shown nests no
more than `n` levels deep. -/
inductive ImportFault (medium : Medium) (loops : Prop) (n : Nat) : Fault → Prop where
  | element (kind : String) : ImportFault medium loops n (.outlineElement kind)
  /-- A list with nothing to lie below, of which the first element is shown. -/
  | nesting {first : Value} {e : Fault} : (¬ loops → first.levels ≤ n) →
      e = .nestingJump first ∨ e = .unshowable first → ImportFault medium loops n e
  /-- A level of a heading, or a number that is too long to be a text. -/
  | number {e : Fault} : e.IsNumber → ImportFault medium loops n e
  | endless : loops → ImportFault medium loops n .endless
  | range : medium = .database → ImportFault medium loops n .outOfStoredRange
  | transfer : medium = .database → ImportFault medium loops n .notTransferable

/-- Where nothing lies within itself, what is shown is nested no deeper than the outline. -/
theorem ImportFault.levels_le {medium : Medium} {n : Nat} {e : Fault} {v : Value}
    (h : ImportFault medium False n e) (he : e = .nestingJump v ∨ e = .unshowable v) :
    v.levels ≤ n := by
  cases h with
  | nesting hlevels hshown =>
    rcases he with rfl | rfl
    · rcases hshown with h | h
      · cases h
        exact hlevels id
      · exact nomatch h
    · rcases hshown with h | h
      · exact nomatch h
      · cases h
        exact hlevels id
  | number hnumber =>
    rcases he with rfl | rfl
    · exact nomatch hnumber.1
    · exact absurd rfl (hnumber.2 v)
  | _ => rcases he with h | h <;> exact nomatch h

/-- A fault that shows no value is no different on any machine. -/
theorem Fault.IsNumber.showing_eq {e : Fault} (h : e.IsNumber) (m : Machine) :
    m.showing e = e := by
  unfold Machine.showing
  split
  · exact nomatch h.1
  · next v => exact absurd rfl (h.2 v)
  · rfl

theorem plain_faults (v : Value) : OnlyFaults Fault.IsNumber v.plain := by
  unfold Value.plain
  split
  · exact .ok _
  · exact .error ⟨rfl, nofun⟩

theorem headingLevel_faults (digits : List Char) :
    OnlyFaults Fault.IsNumber (headingLevel digits) := by
  unfold headingLevel
  split_ifs
  · exact .ok _
  · exact .error ⟨rfl, nofun⟩
  · exact .ok _

theorem token_faults (t : Token) (f : Fields) : OnlyFaults Fault.IsNumber (t.set f) := by
  cases t with
  | heading digits => exact (headingLevel_faults digits).map _
  | _ => exact .ok _

theorem readTokens_faults (grammar : List Directive) (text : List Char) (f : Fields) :
    OnlyFaults Fault.IsNumber (Fields.readTokens grammar text f) := by
  induction grammar generalizing text f with
  | nil => exact .ok _
  | cons d grammar ih =>
    unfold Fields.readTokens
    split
    · exact ih text f
    · exact (token_faults _ f).bind fun g _ => ih _ g

theorem fields_faults (text : String) : OnlyFaults Fault.IsNumber (Fields.ofText text) := by
  refine (readTokens_faults _ _ _).bind fun f _ => ?_
  unfold Fields.check
  split
  · split_ifs
    · exact .error ⟨rfl, nofun⟩
    · exact .ok _
  · exact .ok _

namespace Store

open Forest Value

variable {medium : Medium} {loops : Prop} {n : Nat} {s : Store} {C : Hole} {g : Forest}
  {c : Cursor}

theorem outlineText_faults (v : Value) : OnlyFaults (ImportFault medium loops n) v.outlineText := by
  unfold Value.outlineText
  split
  · exact .ok _
  · exact (plain_faults _).mono fun _ => .number
  · exact (plain_faults _).mono fun _ => .number
  · exact (plain_faults _).mono fun _ => .number
  · exact .error (.element _)

theorem checkRange_faults (hm : s.medium = medium) (position : Int) (heading : Option Int) :
    OnlyFaults (ImportFault medium loops n) (checkRange position heading s).1 := by
  by_cases hcan : s.canHold position heading = true
  · rw [checkRange_ok hcan]
    exact .ok _
  · have hdb : medium = .database := by
      unfold canHold at hcan
      rw [← hm]
      cases hs : s.medium with
      | memory => simp [hs] at hcan
      | database => rfl
    rcases checkTransfer_cases (s := s) (position :: heading.toList) with ht | ht
    · rw [checkRange_outOfRange ht hcan]
      exact .error (.range hdb)
    · rw [checkRange_notTransferable ht]
      exact .error (.transfer hdb)

theorem create_faults (hm : s.medium = medium) (h : s.Shows (C.plug g)) (position : Int)
    (fields : Fields) :
    OnlyFaults (ImportFault medium loops n) (create C.parent position fields s).1 := by
  unfold create
  rw [bind_ok get_run, bind_ok (lift_ok (checkParent_ok fun _ hid => h.contains_of_parent hid))]
  exact (checkRange_faults hm position fields.heading).store_bind fun _ _ _ => .ok _

theorem leaf_faults (hm : s.medium = medium) (h : s.Shows (C.plug g)) (v : Value) :
    OnlyFaults (ImportFault medium loops n)
      ((do
        let fields ← Fields.ofText (← v.outlineText)
        let id ← create C.parent c.position fields
        return ([id], { position := c.position + 1, last := some id }) :
          StoreM (List Int × Cursor)) s).1 :=
  .lift_bind (outlineText_faults v) fun text _ =>
    .lift_bind ((fields_faults text).mono fun _ => .number) fun fields _ =>
      .store_bind (create_faults hm h c.position fields) fun _ _ _ => .ok _

theorem enter_faults (c : Cursor) {items : List Value}
    (hfirst : ¬ loops → (items.headD .null).levels ≤ n) (s : Store) :
    OnlyFaults (ImportFault medium loops n) (enter c items s).1 := by
  unfold enter
  cases c.last with
  | none =>
    refine .error ?_
    unfold nestingFault Fault.showing
    dsimp only
    split
    · exact .nesting hfirst (.inl rfl)
    · exact .nesting hfirst (.inr rfl)
  | some id => exact .ok _

theorem nested_faults (hs : s.spoilt = false) (h : s.Shows (C.plug g)) (hc : c.At g)
    {items : List Value} (hfirst : ¬ loops → (items.headD .null).levels ≤ n)
    (run : Int → Cursor → StoreM (List Int))
    (hrun : ∀ {C' : Hole} {b : Forest} {c' : Cursor} {id : Int}, s.Shows (C'.plug b) → c'.At b →
      C'.parent = some id → OnlyFaults (ImportFault medium loops n) (run id c' s).1) :
    OnlyFaults (ImportFault medium loops n)
      ((do
        let (id, c₁) ← enter c items
        return (← run id c₁, c) : StoreM (List Int × Cursor)) s).1 := by
  have ho := enter_outcome hs h hc items
  refine .store_bind (enter_faults c hfirst s) ?_
  rintro ⟨id, c'⟩ t ht
  obtain rfl := enter_eq_ok ht
  rw [ht] at ho
  cases ho with
  | done _ _ hf' hd =>
    obtain ⟨rfl, -, g', fields, b, rfl, hin⟩ := hd
    exact .store_bind (hrun hf'.under hin rfl) fun _ _ _ => .ok _

/-- Outside of all collections within themselves the elements of a list are as they are written. -/
theorem levels_headD_closed {around : List (Nat × Value)} (ha : ¬ loops → around = [])
    {items : List Value} (hn : levelsIn items + 1 ≤ n) (hl : ¬ loops) :
    ((items.map (Value.closed around)).headD .null).levels ≤ n := by
  rw [ha hl, show items.map (Value.closed []) = items from List.map_id items]
  exact (levels_headD_le items).trans (Nat.le_of_succ_le hn)

mutual

theorem importItem_faults (around : List (Nat × Value)) {s : Store} {C : Hole} {g : Forest}
    {c : Cursor} (ha : ¬ loops → around = []) (hm : s.medium = medium) (hs : s.spoilt = false)
    (hi : s.medium = .database → s.inTransaction = true) (h : s.Shows (C.plug g)) (hc : c.At g) :
    (v : Value) → (v.isTree = false → loops) → v.levels ≤ n →
      OnlyFaults (ImportFault medium loops n) (importItem around C.parent c v s).1
  | .list items => fun hl hn => by
    unfold importItem
    refine nested_faults hs h hc (levels_headD_closed ha hn)
      (fun id c₁ => importItems around (some id) c₁ items) fun hf' hc' hp => ?_
    exact hp ▸ importItems_faults around ha hm hs hi hf' hc' items hl (Nat.le_of_succ_le hn)
  | .tuple items => fun hl hn => by
    unfold importItem
    refine nested_faults hs h hc (levels_headD_closed ha hn)
      (fun id c₁ => importItems around (some id) c₁ items) fun hf' hc' hp => ?_
    exact hp ▸ importItems_faults around ha hm hs hi hf' hc' items hl (Nat.le_of_succ_le hn)
  | .loop _ v => fun hl hn => importItem_faults _ (fun hnot => absurd (hl rfl) hnot) hm hs hi h hc v
      (fun _ => hl rfl) hn
  | .again _ => fun hl _ => .store_bind (enter_faults c (fun hnot => absurd (hl rfl) hnot) s)
      fun _ _ _ => .error (.endless (hl rfl))
  | .null => fun _ _ => leaf_faults hm h .null
  | .bool b => fun _ _ => leaf_faults hm h (.bool b)
  | .int k => fun _ _ => leaf_faults hm h (.int k)
  | .float x => fun _ _ => leaf_faults hm h (.float x)
  | .text t => fun _ _ => leaf_faults hm h (.text t)
  | .dict entries => fun _ _ => leaf_faults hm h (.dict entries)
  | .set items => fun _ _ => leaf_faults hm h (.set items)
  | .constant v => fun _ _ => leaf_faults hm h (.constant v)
  | .date d => fun _ _ => leaf_faults hm h (.date d)
  | .moment t => fun _ _ => leaf_faults hm h (.moment t)
  | .bytes bs => fun _ _ => leaf_faults hm h (.bytes bs)

theorem importItems_faults (around : List (Nat × Value)) {s : Store} {C : Hole} {g : Forest}
    {c : Cursor} (ha : ¬ loops → around = []) (hm : s.medium = medium) (hs : s.spoilt = false)
    (hi : s.medium = .database → s.inTransaction = true) (h : s.Shows (C.plug g)) (hc : c.At g) :
    (items : List Value) → (areTrees items = false → loops) → levelsIn items ≤ n →
      OnlyFaults (ImportFault medium loops n) (importItems around C.parent c items s).1
  | [] => fun _ _ => .ok _
  | v :: rest => fun hl hn => by
    have ho := importItem_outcome around hs hi h hc v
    have hv : v.isTree = false → loops := fun hv => hl (by simp [areTrees, hv])
    have hlevels := Nat.max_le.1 (show max v.levels (levelsIn rest) ≤ n from hn)
    refine .store_bind (importItem_faults around ha hm hs hi h hc v hv hlevels.1) ?_
    rintro ⟨ids, c'⟩ t ht
    rw [ht] at ho
    cases ho with
    | done hfol hs' hf' hd =>
      obtain ⟨g', rfl, hc', -⟩ := hd
      have hrest : areTrees rest = false → loops := fun hr => hl (by simp [areTrees, hr])
      exact .store_bind (importItems_faults around ha (hfol.medium_eq.trans hm) hs'
        (hfol.inTransaction hi) hf' hc' rest hrest hlevels.2) fun _ _ _ => .ok _

end

/-- How an import of a list into a place that is there may fail. -/
theorem importOutline_faults (hm : s.medium = medium) (hs : s.spoilt = false)
    (h : s.Shows (C.plug g)) (items : List Value) (hl : areTrees items = false → loops) :
    OnlyFaults (ImportFault medium loops (levelsIn items))
      (importOutline (.list items) C.parent s).1 := by
  have hitems := importItems_faults [] (fun _ => rfl) ((medium_opened s).trans hm)
    ((spoilt_opened s).trans hs) (opened_inTransaction s) h.opened (cursor_at_end h.opened) items hl
    (Nat.le_refl _)
  rw [← importing_eq h.opened] at hitems
  rcases hrun : importing (.list items) C.parent s.opened with ⟨r, t⟩
  rw [importOutline_eq, transaction_eq hrun]
  rwa [hrun] at hitems

end Store

end Bylaws
