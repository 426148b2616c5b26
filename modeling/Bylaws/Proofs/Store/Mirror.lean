import Bylaws.Proofs.Forest.Rename
import Bylaws.Proofs.Session.Built
import Bylaws.Proofs.Forest.Media

/-!
# The same document under other ids

Two stores resemble one another if they hold the same paragraphs of a document under other ids, in
the same order (`Store.Resembles`), and mirror one another if they also draw corresponding ids
from then on (`Store.Mirrors`). What else is in the two stores does not matter. Operations on them
are twins if they end alike: with answers that correspond, or with the same fault, and with stores
that mirror one another (`Store.Twin`). The single operations of a store are their own twins, with
the ids that they are given renamed.

A store in memory may also be mirrored by one on a database, which refuses what it cannot hold;
then only what succeeds on the database is the same in memory (`lenient`).
-/

namespace Bylaws

/-- Faults that are the same but for the names of paragraphs that are missing. -/
inductive Fault.Alike (names : List (Int × Int)) : Fault → Fault → Prop where
  | same (e : Fault) : Alike names e e
  | missing {i j : Int} : (i, j) ∈ names → Alike names (.paragraphMissing i) (.paragraphMissing j)

namespace Store

open Forest

/-- Two stores hold the paragraphs of one document under ids that are renamed. They are on the same
medium in the same state, or the second one is on a database and the first one in memory. -/
structure Resembles (lenient : Prop) (ρ : Int → Int) (s t : Store) : Prop where
  paragraphs_eq : t.paragraphs = s.paragraphs.map (Paragraph.rename ρ)
  documentId_eq : t.documentId = s.documentId
  medium : (t.medium = s.medium ∧ t.inTransaction = s.inTransaction ∧ t.spoilt = s.spoilt) ∨
    (lenient ∧ s.medium = .memory ∧ t.medium = .database ∧ t.spoilt = false)

/-- Two stores hold the paragraphs of one document under ids that are renamed, and so are all ids
that they issue from then on. -/
structure Mirrors (lenient : Prop) (ρ : Int → Int) (s t : Store) : Prop
    extends Resembles lenient ρ s t where
  next : ∀ n : Nat, ρ (s.nextId + n) = t.nextId + n

/-- A paragraph is named in two stores: by corresponding ids if it is there, or else by ids that
name nothing in either. -/
inductive Named (names : List (Int × Int)) (ρ : Int → Int) (s t : Store) (i j : Int) : Prop where
  | stored : s.contains i = true → j = ρ i → Named names ρ s t i j
  | missing : (i, j) ∈ names → s.contains i = false → t.contains j = false →
      isTransferable j = isTransferable i → Named names ρ s t i j

/-- A place is named in two stores. -/
inductive Placed (names : List (Int × Int)) (ρ : Int → Int) (s t : Store) :
    Option Int → Option Int → Prop where
  | top : Placed names ρ s t none none
  | under {i j : Int} : Named names ρ s t i j → Placed names ρ s t (some i) (some j)

/-- A place that is there is named by the corresponding id. -/
theorem Placed.eq_map {names : List (Int × Int)} {ρ : Int → Int} {s t : Store}
    {parent parent' : Option Int} (h : Placed names ρ s t parent parent')
    (hp : ∀ i, parent = some i → s.contains i = true) : parent' = parent.map ρ := by
  cases h with
  | top => rfl
  | under h =>
    cases h with
    | stored _ hj => rw [hj, Option.map_some]
    | missing _ hi _ _ => exact absurd (hp _ rfl) (by simp [hi])

/-- Two lookups answer alike, or the second one is refused. -/
inductive Echoes {α β : Type} (lenient : Prop) (names : List (Int × Int)) (R : α → β → Prop) :
    Except Fault α → Except Fault β → Prop where
  | ok {a : α} {b : β} : R a b → Echoes lenient names R (.ok a) (.ok b)
  | error {e e' : Fault} : Fault.Alike names e e' → Echoes lenient names R (.error e) (.error e')
  | refused {x : Except Fault α} {e : Fault} : lenient → Echoes lenient names R x (.error e)

/-- Two operations end alike, or the second one is refused. -/
inductive Twin {α β : Type} (lenient : Prop) (names : List (Int × Int)) (ρ : Int → Int)
    (R : α → β → Prop) : Except Fault α × Store → Except Fault β × Store → Prop where
  | ok {a : α} {b : β} {s t : Store} : R a b → Mirrors lenient ρ s t →
      Twin lenient names ρ R (.ok a, s) (.ok b, t)
  | error {e e' : Fault} {s t : Store} : Fault.Alike names e e' → Mirrors lenient ρ s t →
      Twin lenient names ρ R (.error e, s) (.error e', t)
  | refused {x : Except Fault α × Store} {e : Fault} {t : Store} : lenient →
      Twin lenient names ρ R x (.error e, t)

variable {lenient : Prop} {names : List (Int × Int)} {ρ : Int → Int} {α β γ δ : Type}
  {R : α → β → Prop} {R' : γ → δ → Prop} {s s' t t' : Store}

/-! ## Looking up -/

section Lookup

variable (hρ : StrictMono ρ)

include hρ

namespace Resembles

theorem find?_eq (h : Resembles lenient ρ s t) (i : Int) :
    t.find? (ρ i) = (s.find? i).map (Paragraph.rename ρ) := by
  have hfun : ((fun p : Paragraph => p.id == ρ i) ∘ Paragraph.rename ρ) = fun p => p.id == i := by
    funext p
    simp [hρ.injective.eq_iff]
  unfold find?
  rw [h.paragraphs_eq, List.find?_map, hfun]

theorem contains_eq (h : Resembles lenient ρ s t) (i : Int) : t.contains (ρ i) = s.contains i := by
  unfold contains
  rw [h.find?_eq hρ]
  simp

theorem get_ok (h : Resembles lenient ρ s t) {i : Int} {p : Paragraph} (hp : s.get i = .ok p) :
    t.get (ρ i) = .ok (p.rename ρ) := by
  obtain ⟨hmem, rfl⟩ := get_eq_ok hp
  cases hf : s.find? p.id with
  | none =>
    have hc : s.contains p.id = true := contains_iff_exists.2 ⟨p, hmem, rfl⟩
    unfold contains at hc
    rw [hf] at hc
    exact nomatch hc
  | some q =>
    obtain rfl := Except.ok.inj ((Store.get_ok hf).symm.trans hp)
    exact Store.get_ok (by rw [h.find?_eq hρ, hf]; rfl)

theorem children_eq (h : Resembles lenient ρ s t) (parent : Option Int) :
    t.children (parent.map ρ) = (s.children parent).map (Paragraph.rename ρ) := by
  have hfun : ((fun p : Paragraph => p.parent == parent.map ρ) ∘ Paragraph.rename ρ) =
      fun p => p.parent == parent := by
    funext p
    simp [(Option.map_injective hρ.injective).eq_iff]
  unfold children
  rw [h.paragraphs_eq, List.filter_map, hfun, Paragraph.inOrder_rename hρ]

theorem childCount_eq (h : Resembles lenient ρ s t) (parent : Option Int) :
    t.childCount (parent.map ρ) = s.childCount parent := by
  have hlength := congrArg List.length (h.children_eq hρ parent)
  rwa [List.length_map, ← childCount_eq_length, ← childCount_eq_length] at hlength

end Resembles

end Lookup

theorem Echoes.mono {x : Except Fault α} {y : Except Fault β} {R' : α → β → Prop}
    (h : Echoes lenient names R x y) (hR : ∀ a b, x = .ok a → R a b → R' a b) :
    Echoes lenient names R' x y := by
  cases h with
  | ok hr => exact .ok (hR _ _ rfl hr)
  | error he => exact .error he
  | refused hl => exact .refused hl

/-- Lookups one after the other. -/
theorem Echoes.bind {x : Except Fault α} {y : Except Fault β} {f : α → Except Fault γ}
    {g : β → Except Fault δ} (h : Echoes lenient names R x y)
    (hfg : ∀ a b, x = .ok a → y = .ok b → R a b → Echoes lenient names R' (f a) (g b)) :
    Echoes lenient names R' (x >>= f) (y >>= g) := by
  cases h with
  | ok hr => exact hfg _ _ rfl rfl hr
  | error he => exact .error he
  | refused hl => exact .refused hl

/-! ## Running twins -/

namespace Twin

theorem lift {x : Except Fault α} {y : Except Fault β} (h : Echoes lenient names R x y)
    (hm : Mirrors lenient ρ s t) :
    Twin lenient names ρ R ((liftM x : StoreM α) s) ((liftM y : StoreM β) t) := by
  cases h with
  | ok hr => exact .ok hr hm
  | error he => exact .error he hm
  | refused hl => exact .refused hl

theorem lift_bind {x : Except Fault α} {y : Except Fault β} {f : α → StoreM γ} {g : β → StoreM δ}
    (h : Echoes lenient names R x y) (hm : Mirrors lenient ρ s t)
    (hfg : ∀ a b, x = .ok a → y = .ok b → R a b → Twin lenient names ρ R' (f a s) (g b t)) :
    Twin lenient names ρ R' ((liftM x >>= f) s) ((liftM y >>= g) t) := by
  cases h with
  | ok hr =>
    rw [bind_ok (lift_ok rfl), bind_ok (lift_ok rfl)]
    exact hfg _ _ rfl rfl hr
  | error he =>
    rw [bind_error (lift_error rfl), bind_error (lift_error rfl)]
    exact .error he hm
  | refused hl =>
    rw [bind_error (x := (liftM _ : StoreM β)) (lift_error rfl)]
    exact .refused hl

/-- Looking up the same in both. -/
theorem same_bind (x : Except Fault α) {f : α → StoreM γ} {g : α → StoreM δ}
    (hm : Mirrors lenient ρ s t)
    (hfg : ∀ a, x = .ok a → Twin lenient names ρ R' (f a s) (g a t)) :
    Twin lenient names ρ R' ((liftM x >>= f) s) ((liftM x >>= g) t) := by
  refine lift_bind (R := Eq) ?_ hm fun a b ha _ hab => hab ▸ hfg a ha
  cases x with
  | error e => exact .error (.same e)
  | ok a => exact .ok rfl

theorem bind {x : StoreM α} {y : StoreM β} {f : α → StoreM γ} {g : β → StoreM δ}
    (h : Twin lenient names ρ R (x s) (y t))
    (hfg : ∀ a b s' t', x s = (.ok a, s') → y t = (.ok b, t') → R a b → Mirrors lenient ρ s' t' →
      Twin lenient names ρ R' (f a s') (g b t')) :
    Twin lenient names ρ R' ((x >>= f) s) ((y >>= g) t) := by
  rcases hx : x s with ⟨r, s'⟩
  rcases hy : y t with ⟨r', t'⟩
  rw [hx, hy] at h
  cases h with
  | ok hr hm =>
    rw [bind_ok hx, bind_ok hy]
    exact hfg _ _ _ _ hx hy hr hm
  | error he hm =>
    rw [bind_error hx, bind_error hy]
    exact .error he hm
  | refused hl =>
    rw [bind_error hy]
    exact .refused hl

theorem bind_pure {x : StoreM α} {y : StoreM β} {f : α → γ} {g : β → δ}
    (h : Twin lenient names ρ R (x s) (y t)) (hfg : ∀ a b, R a b → R' (f a) (g b)) :
    Twin lenient names ρ R' ((x >>= fun a => pure (f a)) s) ((y >>= fun b => pure (g b)) t) :=
  h.bind fun a b _ _ _ _ hr hm => .ok (hfg a b hr) hm

theorem get_bind {f : Store → StoreM γ} {g : Store → StoreM δ}
    (h : Twin lenient names ρ R' (f s s) (g t t)) :
    Twin lenient names ρ R' ((MonadState.get >>= f) s) ((MonadState.get >>= g) t) := by
  rw [bind_ok get_run, bind_ok get_run]
  exact h

theorem throw (e : Fault) (hm : Mirrors lenient ρ s t) :
    Twin lenient names ρ R ((MonadExcept.throw e : StoreM α) s)
      ((MonadExcept.throw e : StoreM β) t) := .error (.same e) hm

end Twin

/-! ## Transactions -/

theorem Mirrors.opened (h : Mirrors lenient ρ s t) : Mirrors lenient ρ s.opened t.opened where
  paragraphs_eq := by
    unfold paragraphs
    rw [rows_opened, rows_opened, documentId_opened, documentId_opened]
    exact h.paragraphs_eq
  documentId_eq := by rw [documentId_opened, documentId_opened, h.documentId_eq]
  next := by
    rw [nextId_opened, nextId_opened]
    exact h.next
  medium := by
    rw [medium_opened, medium_opened, spoilt_opened, spoilt_opened]
    refine h.medium.imp_left ?_
    rintro ⟨hm, hi, hs⟩
    refine ⟨hm, ?_, hs⟩
    unfold Store.opened
    rw [hm]
    cases s.medium with
    | memory => exact hi
    | database =>
      dsimp only
      rw [hi]
      cases hb : s.inTransaction with
      | true => simp [hi, hb]
      | false => rfl

/-- Whether a transaction goes back to the rows that it began with. -/
def reverts (undone : Bool) (s s' : Store) : Bool :=
  match s.medium with
  | .memory => undone
  | .database => !s.inTransaction && (undone || s'.spoilt)

theorem paragraphs_closed (undone : Bool) (h : s.opened.Follows s') :
    (closed undone s s').paragraphs =
      if reverts undone s s' then s.paragraphs else s'.paragraphs := by
  have hdoc : s'.documentId = s.documentId := h.documentId_eq.trans (documentId_opened s)
  unfold closed reverts paragraphs
  cases s.medium with
  | memory => cases undone <;> simp [hdoc]
  | database =>
    cases s.inTransaction <;> cases undone <;> cases s'.spoilt <;> simp [hdoc]

/-- Two transactions end alike, unless a failure in memory is undone. -/
theorem Mirrors.closed (h : Mirrors lenient ρ s t) (h' : Mirrors lenient ρ s' t')
    (hs : s.opened.Follows s') (ht : t.opened.Follows t') (undone : Bool)
    (hu : undone = true → t.medium = s.medium) :
    Mirrors lenient ρ (closed undone s s') (closed undone t t') := by
  have hfollows := follows_closed undone hs
  have hfollows' := follows_closed undone ht
  have hmedium : s'.medium = s.medium := hs.medium_eq.trans (medium_opened s)
  have hmedium' : t'.medium = t.medium := ht.medium_eq.trans (medium_opened t)
  have hreverts : reverts undone t t' = reverts undone s s' := by
    unfold reverts
    rcases h.medium with ⟨hm, hi, -⟩ | ⟨-, hm, hm', -⟩
    · rcases h'.medium with ⟨-, -, hs'⟩ | ⟨-, hmem, hdb, -⟩
      · rw [hm, hi, hs']
      · rw [hmedium] at hmem
        rw [hmedium', hm, hmem] at hdb
        exact absurd hdb (by decide)
    · have hfalse : undone = false := by
        by_contra hne
        have hsame := hu (by simpa using hne)
        rw [hm, hm'] at hsame
        exact absurd hsame (by decide)
      have hspoilt : t'.spoilt = false := by
        rcases h'.medium with ⟨hsame, -, -⟩ | ⟨-, -, -, hsp⟩
        · rw [hmedium, hmedium', hm, hm'] at hsame
          exact absurd hsame (by decide)
        · exact hsp
      simp [hm, hm', hfalse, hspoilt]
  refine ⟨⟨?_, ?_, ?_⟩, ?next⟩
  case next =>
    rw [nextId_closed, nextId_closed]
    exact h'.next
  · rw [paragraphs_closed undone hs, paragraphs_closed undone ht, hreverts]
    split
    · exact h.paragraphs_eq
    · exact h'.paragraphs_eq
  · rw [hfollows.documentId_eq, hfollows'.documentId_eq, h.documentId_eq]
  · rw [hfollows.medium_eq, hfollows'.medium_eq, hfollows.inTransaction_eq,
      hfollows'.inTransaction_eq]
    rcases h.medium with ⟨hm, hi, hsp⟩ | ⟨hl, hm, hm', hsp⟩
    · refine .inl ⟨hm, hi, ?_⟩
      rcases h'.medium with ⟨-, -, hs'⟩ | ⟨-, hmem, hdb, -⟩
      · unfold Store.closed
        rw [hm, hi]
        cases s.medium <;> cases s.inTransaction <;> cases undone <;> simp [hs']
      · rw [hmedium] at hmem
        rw [hmedium', hm, hmem] at hdb
        exact absurd hdb (by decide)
    · refine .inr ⟨hl, hm, hm', ?_⟩
      rcases h'.medium with ⟨hsame, -, -⟩ | ⟨-, -, -, hsp'⟩
      · rw [hmedium, hmedium', hm, hm'] at hsame
        exact absurd hsame (by decide)
      · exact spoilt_closed undone t hsp'

theorem Twin.transaction {x : StoreM α} {y : StoreM β} (h : Mirrors lenient ρ s t)
    (hx : Built x) (hy : Built y) (hxy : Twin lenient names ρ R (x s.opened) (y t.opened)) :
    Twin lenient names ρ R (Store.transaction x s) (Store.transaction y t) := by
  have hs := hx.follows s.opened
  have ht := hy.follows t.opened
  rcases hrun : x s.opened with ⟨r, s'⟩
  rcases hrun' : y t.opened with ⟨r', t'⟩
  rw [hrun] at hs
  rw [hrun'] at ht
  rw [hrun, hrun'] at hxy
  rw [transaction_eq hrun, transaction_eq hrun']
  cases hxy with
  | ok hr hm => exact .ok hr (h.closed hm hs ht false nofun)
  | error he hm =>
    rcases h.medium with ⟨hmedium, -, -⟩ | ⟨hl, -, -, -⟩
    · exact .error he (h.closed hm hs ht true fun _ => hmedium)
    · exact .refused hl
  | refused hl => exact .refused hl

/-! ## Naming -/

section Naming

variable (hρ : StrictMono ρ)

include hρ

theorem Named.checkName {i j : Int} (hn : Named names ρ s t i j) (h : Resembles lenient ρ s t) :
    Echoes lenient names (fun _ _ => True) (s.checkName (some i)) (t.checkName (some j)) := by
  cases hn with
  | stored hi hj =>
    subst hj
    have hj : t.contains (ρ i) = true := (h.contains_eq hρ i).trans hi
    rw [checkName_ok fun _ he => Option.some.inj he ▸ hi,
      checkName_ok fun _ he => Option.some.inj he ▸ hj]
    exact .ok trivial
  | missing _ hi hj htransfer =>
    have hcheck : ∀ (u : Store) (k : Int), u.contains k = false →
        u.checkName (some k) = u.checkTransfer [k] := fun u k hk => if_neg (by simp [hk])
    rw [hcheck s i hi, hcheck t j hj]
    unfold checkTransfer
    rcases h.medium with ⟨hm, -, -⟩ | ⟨hl, hm, hm', -⟩
    · rw [hm]
      cases s.medium with
      | memory => exact .ok trivial
      | database =>
        simp only [List.all_cons, List.all_nil, Bool.and_true, htransfer]
        split
        · exact .ok trivial
        · exact .error (.same _)
    · rw [hm, hm']
      simp only [List.all_cons, List.all_nil, Bool.and_true]
      split
      · exact .ok trivial
      · exact .refused hl

theorem Placed.checkName {parent parent' : Option Int} (hn : Placed names ρ s t parent parent')
    (h : Resembles lenient ρ s t) :
    Echoes lenient names (fun _ _ => True) (s.checkName parent) (t.checkName parent') := by
  cases hn with
  | top => exact .ok trivial
  | under hn => exact hn.checkName hρ h

/-- A paragraph is found in both stores, or in neither. -/
theorem Named.get {i j : Int} (hn : Named names ρ s t i j) (h : Resembles lenient ρ s t) :
    Echoes lenient names (fun p q => q = p.rename ρ) (s.get i) (t.get j) := by
  have hname := hn.checkName hρ h
  cases hn with
  | stored hi hj =>
    subst hj
    obtain ⟨p, hp⟩ := Option.isSome_iff_exists.1 hi
    have hget := Store.get_ok hp
    rw [hget, h.get_ok hρ hget]
    exact .ok rfl
  | missing hnames hi hj _ =>
    have hmissing : ∀ (u : Store) (k : Int), u.contains k = false →
        u.get k = u.checkName (some k) >>= fun _ => .error (.paragraphMissing k) := by
      intro u k hk
      have hf : u.find? k = none := by simpa [contains] using hk
      unfold Store.get
      rw [hf]
    rw [hmissing s i hi, hmissing t j hj]
    exact hname.bind fun _ _ _ _ _ => .error (.missing hnames)

theorem Placed.checkParent {parent parent' : Option Int} (hn : Placed names ρ s t parent parent')
    (h : Resembles lenient ρ s t) :
    Echoes lenient names (fun _ _ => ∀ i, parent = some i → s.contains i = true)
      (s.checkParent parent) (t.checkParent parent') := by
  cases hn with
  | top => exact .ok nofun
  | @under i j hn =>
    refine (hn.get hρ h).bind fun p _ hp _ _ => .ok ?_
    rintro k ⟨⟩
    obtain ⟨hmem, rfl⟩ := get_eq_ok hp
    exact contains_iff_exists.2 ⟨p, hmem, rfl⟩

/-- What is below a place that is not there is nothing. -/
theorem Placed.children {f : Forest} {parent parent' : Option Int}
    (hn : Placed names ρ s t parent parent') (h : Resembles lenient ρ s t) (hf : s.Shows f) :
    t.children parent' = (s.children parent).map (Paragraph.rename ρ) := by
  cases hn with
  | top => exact h.children_eq hρ none
  | @under i j hn =>
    cases hn with
    | stored _ hj =>
      subst hj
      exact h.children_eq hρ (some i)
    | missing _ hi hj _ =>
      have hs : s.children (some i) = [] := by
        refine List.eq_nil_iff_forall_not_mem.2 fun p hp => ?_
        obtain ⟨hmem, hparent⟩ := mem_children.1 hp
        rw [contains_iff_exists.2 (hf.parent_stored hmem hparent)] at hi
        exact nomatch hi
      have ht : t.children (some j) = [] := by
        refine List.eq_nil_iff_forall_not_mem.2 fun q hq => ?_
        obtain ⟨hmem, hparent⟩ := mem_children.1 hq
        rw [h.paragraphs_eq] at hmem
        obtain ⟨p, hp, rfl⟩ := List.mem_map.1 hmem
        rw [Paragraph.rename_parent, Option.map_eq_some_iff] at hparent
        obtain ⟨k, hk, rfl⟩ := hparent
        rw [h.contains_eq hρ, contains_iff_exists.2 (hf.parent_stored hp hk)] at hj
        exact nomatch hj
      rw [hs, ht]
      rfl

theorem Placed.nextPosition {f : Forest} {parent parent' : Option Int}
    (hn : Placed names ρ s t parent parent') (h : Resembles lenient ρ s t) (hf : s.Shows f) :
    Echoes lenient names Eq (s.nextPosition parent) (t.nextPosition parent') := by
  have hcount : t.childCount parent' = s.childCount parent := by
    rw [childCount_eq_length, childCount_eq_length, hn.children hρ h hf, List.length_map]
  refine (hn.checkName hρ h).bind fun _ _ _ _ _ => .ok ?_
  rw [hcount]

end Naming

/-! ## Writes -/

/-- What is written is renamed. -/
def Move.rename (ρ : Int → Int) (m : Move) : Move := ⟨ρ m.id, m.position, m.parent.map ρ⟩

theorem checkRange_twin (position : Int) (heading : Option Int) (h : Mirrors lenient ρ s t) :
    Twin lenient names ρ (fun _ _ => True) (checkRange position heading s)
      (checkRange position heading t) := by
  rcases h.medium with ⟨hm, hi, hs⟩ | ⟨hl, hm, -, -⟩
  · have hhold : t.canHold position heading = s.canHold position heading := by
      unfold canHold
      rw [hm]
    have htransfer : t.checkTransfer (position :: heading.toList) =
        s.checkTransfer (position :: heading.toList) := by
      unfold checkTransfer
      rw [hm]
    by_cases hc : s.canHold position heading = true
    · rw [checkRange_ok hc, checkRange_ok (hhold.trans hc)]
      exact .ok trivial h
    · have hc' : ¬ t.canHold position heading = true := by rwa [hhold]
      rcases checkTransfer_cases (s := s) (position :: heading.toList) with ht | ht
      · rw [checkRange_outOfRange ht hc, checkRange_outOfRange (htransfer.trans ht) hc']
        exact .error (.same _) ⟨⟨h.paragraphs_eq, h.documentId_eq, .inl ⟨hm, hi, hi⟩⟩, h.next⟩
      · rw [checkRange_notTransferable ht, checkRange_notTransferable (htransfer.trans ht)]
        exact .error (.same _) h
  · rw [checkRange_ok (canHold_of_memory hm position heading)]
    by_cases hc : t.canHold position heading = true
    · rw [checkRange_ok hc]
      exact .ok trivial h
    · rcases checkTransfer_cases (s := t) (position :: heading.toList) with ht | ht
      · rw [checkRange_outOfRange ht hc]
        exact .refused hl
      · rw [checkRange_notTransferable ht]
        exact .refused hl

/-- Stores whose paragraphs are changed alike. -/
theorem Mirrors.of_rows (h : Mirrors lenient ρ s t) {rows rows' : List Paragraph}
    (hr : { t with rows := rows' }.paragraphs =
      { s with rows := rows }.paragraphs.map (Paragraph.rename ρ)) :
    Mirrors lenient ρ { s with rows } { t with rows := rows' } :=
  ⟨⟨hr, h.documentId_eq, h.medium⟩, h.next⟩

/-- Both stores draw an id, and add a paragraph. -/
theorem Mirrors.added (h : Mirrors lenient ρ s t) (parent : Option Int) (position : Int)
    (fields : Fields) :
    Mirrors lenient ρ (s.added parent position fields)
      (t.added (parent.map ρ) position fields) where
  paragraphs_eq := by
    have hid : ρ s.nextId = t.nextId := by simpa using h.next 0
    rw [paragraphs_added, paragraphs_added, h.paragraphs_eq, h.documentId_eq, List.map_append,
      ← hid]
    rfl
  documentId_eq := h.documentId_eq
  next := by
    intro n
    show ρ (s.nextId + 1 + n) = t.nextId + 1 + n
    have hnext := h.next (n + 1)
    push_cast at hnext
    rw [show s.nextId + 1 + (n : Int) = s.nextId + (n + 1) by omega, hnext]
    omega
  medium := h.medium

section Writes

variable (hρ : StrictMono ρ)

include hρ

theorem create_twin {parent parent' : Option Int} (hn : Placed names ρ s t parent parent')
    (h : Mirrors lenient ρ s t) (position : Int) (fields : Fields) :
    Twin lenient names ρ (fun i j => j = ρ i) (create parent position fields s)
      (create parent' position fields t) := by
  unfold create
  refine .get_bind (.lift_bind (hn.checkParent hρ h.toResembles) h fun _ _ _ _ hstored => ?_)
  refine (checkRange_twin position fields.heading h).bind fun _ _ s' t' hs ht _ _ => ?_
  obtain ⟨rfl, -⟩ := checkRange_eq_ok hs
  obtain ⟨rfl, -⟩ := checkRange_eq_ok ht
  obtain rfl := hn.eq_map hstored
  have hid : ρ s'.nextId = t'.nextId := by simpa using h.next 0
  rw [bind_ok (set_run _), bind_ok (set_run _)]
  exact .ok hid.symm (h.added parent position fields)

theorem moveRow_rename (doc : String) (id position : Int) (parent : Option Int) (p : Paragraph) :
    moveRow doc (ρ id) position (parent.map ρ) (p.rename ρ) =
      (moveRow doc id position parent p).rename ρ := by
  unfold moveRow
  by_cases hrow : p.documentId = doc ∧ p.id = id
  · obtain ⟨rfl, rfl⟩ := hrow
    rw [if_pos (by simp), if_pos (by simp)]
    rfl
  · rw [if_neg, if_neg (by simpa using hrow)]
    intro hc
    obtain ⟨hdoc, hid⟩ := Bool.and_eq_true_iff.1 hc
    exact hrow ⟨of_decide_eq_true hdoc, hρ.injective (of_decide_eq_true hid)⟩

/-- A paragraph that is there is moved below another one that is there. -/
theorem move_twin {m : Move} (h : Mirrors lenient ρ s t) (hid : s.contains m.id = true)
    (hparent : ∀ i, m.parent = some i → s.contains i = true) :
    Twin lenient names ρ (fun _ _ => True) (move m.id m.position m.parent s)
      (move (m.rename ρ).id (m.rename ρ).position (m.rename ρ).parent t) := by
  have hplaced : Placed names ρ s t m.parent (m.parent.map ρ) := by
    cases hp : m.parent with
    | none => exact .top
    | some i => exact .under (.stored (hparent i hp) rfl)
  unfold move Move.rename
  dsimp only
  refine .get_bind (.lift_bind ((Named.stored hid rfl).get hρ h.toResembles) h fun _ _ _ _ _ => ?_)
  refine .lift_bind (hplaced.checkParent hρ h.toResembles) h fun _ _ _ _ _ => ?_
  refine (checkRange_twin m.position none h).bind fun _ _ s' t' hs ht _ _ => ?_
  obtain ⟨rfl, -⟩ := checkRange_eq_ok hs
  obtain ⟨rfl, -⟩ := checkRange_eq_ok ht
  rw [set_run, set_run]
  refine .ok trivial (h.of_rows ?_)
  rw [paragraphs_map (moveRow_documentId _ _ _ _), paragraphs_map (moveRow_documentId _ _ _ _),
    h.paragraphs_eq, h.documentId_eq, List.map_map, List.map_map]
  exact List.map_congr_left fun p _ => moveRow_rename hρ _ _ _ _ p

/-- Moves that find all that they name. -/
theorem makeMoves_twin {moves : List Move} (h : Mirrors lenient ρ s t) (hr : s.Ready moves) :
    Twin lenient names ρ (fun _ _ => True) (makeMoves moves s)
      (makeMoves (moves.map (Move.rename ρ)) t) := by
  induction moves generalizing s t with
  | nil => exact .ok trivial h
  | cons m moves ih =>
    obtain ⟨hid, hparent⟩ := hr m List.mem_cons_self
    have hmove : Twin lenient names ρ (fun _ _ => True) (move m.id m.position m.parent s)
        (move (m.rename ρ).id (m.rename ρ).position (m.rename ρ).parent t) :=
      move_twin hρ h hid hparent
    refine hmove.bind fun _ _ s' t' hs _ _ hm => ih hm ?_
    obtain rfl := move_eq_ok hs
    exact hr.tail

theorem within_rename {ps : List Paragraph} {top id : Int} :
    Within (ps.map (Paragraph.rename ρ)) (ρ top) (ρ id) ↔ Within ps top id := by
  have hbelow : ∀ q, Below (ps.map (Paragraph.rename ρ)) (ρ top) q ↔
      ∃ p, Below ps top p ∧ q = p.rename ρ := by
    have hparent : ∀ (p : Paragraph) (i : Int), (p.rename ρ).parent = some (ρ i) →
        p.parent = some i := by
      intro p i hp
      rw [Paragraph.rename_parent, Option.map_eq_some_iff] at hp
      obtain ⟨k, hk, he⟩ := hp
      rw [hk, hρ.injective he]
    intro q
    constructor
    · intro hq
      induction hq with
      | child hmem hp =>
        obtain ⟨p, hstored, rfl⟩ := List.mem_map.1 hmem
        exact ⟨p, .child hstored (hparent p top hp), rfl⟩
      | deeper _ hmem hp ih =>
        obtain ⟨p, hstored, rfl⟩ := List.mem_map.1 hmem
        obtain ⟨q, hq, rfl⟩ := ih
        exact ⟨p, .deeper hq hstored (hparent p q.id hp), rfl⟩
    · rintro ⟨p, hp, rfl⟩
      induction hp with
      | child hmem hp => exact .child (List.mem_map_of_mem hmem) (by simp [hp])
      | deeper _ hmem hp ih => exact .deeper ih (List.mem_map_of_mem hmem) (by simp [hp])
  unfold Within
  rw [hρ.injective.eq_iff]
  refine or_congr_right ⟨?_, ?_⟩
  · rintro ⟨q, hq, hid⟩
    obtain ⟨p, hp, rfl⟩ := (hbelow q).1 hq
    exact ⟨p, hp, hρ.injective hid⟩
  · rintro ⟨p, hp, rfl⟩
    exact ⟨p.rename ρ, (hbelow _).2 ⟨p, hp, rfl⟩, rfl⟩

theorem Mirrors.without (h : Mirrors lenient ρ s t) (id : Int) :
    Mirrors lenient ρ (s.without id) (t.without (ρ id)) := by
  refine h.of_rows ?_
  have hs := paragraphs_without s id
  have ht := paragraphs_without t (ρ id)
  unfold Store.without at hs ht
  rw [hs, ht, h.paragraphs_eq, List.filter_map]
  congr 1
  refine List.filter_congr fun p _ => ?_
  have hmem : (t.subtreeIds (ρ id)).contains (ρ p.id) = (s.subtreeIds id).contains p.id := by
    rw [Bool.eq_iff_iff, List.contains_iff_mem, List.contains_iff_mem, mem_subtreeIds,
      mem_subtreeIds, h.paragraphs_eq, within_rename hρ]
  show (!(t.subtreeIds (ρ id)).contains (ρ p.id)) = !(s.subtreeIds id).contains p.id
  rw [hmem]

/-- A paragraph that is there is removed with all below it. -/
theorem deleteSubtree_twin {id : Int} (h : Mirrors lenient ρ s t) (hid : s.contains id = true) :
    Twin lenient names ρ (fun _ _ => True) (deleteSubtree id s) (deleteSubtree (ρ id) t) := by
  obtain ⟨p, hp⟩ := Option.isSome_iff_exists.1 hid
  have hget := get_ok hp
  rw [deleteSubtree_ok hget, deleteSubtree_ok (h.get_ok hρ hget)]
  exact .ok trivial (h.without hρ id)

end Writes

end Store

end Bylaws
