import Bylaws.Proofs.Directive
import Bylaws.Proofs.DocumentOrder.Splices
import Bylaws.Proofs.Forest.Faults
import Bylaws.Proofs.NormalForm
import Bylaws.Proofs.Store.Mirror

/-!
# Which outlines are imported

An import of a list accepts just the lists without an offence, and ends at the first offence
otherwise (`Store.importOutline_first_offence`). An offence is a list at the head of a list, which
has nothing to lie below, or an element that is not a list and cannot be a paragraph. Offences are
counted from the left, and those of a list before those of what is behind it. The import does not
look ahead, so the proof follows it: each operation comes to its result where there is no offence,
and ends at the first one otherwise (`Store.Meets`).
-/

namespace Bylaws

open Forest

/-! ## Offences -/

/-- Why a medium cannot keep a heading of some level. -/
def Medium.levelRefusal? : Medium → Option Int → Option Fault
  | .database, some n =>
    if Store.fits n then none
    else if Store.isTransferable n then some .outOfStoredRange
    else some .notTransferable
  | _, _ => none

/-- Why a text cannot be a paragraph. -/
def Medium.textRefusal? (m : Medium) (text : String) : Option Fault :=
  match Fields.parse text with
  | .error e => some e
  | .ok f =>
    if f.heading = some 0 then some (.headingNotPositive 0) else m.levelRefusal? f.heading

namespace Value

/-- Texts, and what stands for its text. -/
def isScalar : Value → Bool
  | .text _ => true
  | .bool _ => true
  | .int _ => true
  | .float _ => true
  | _ => false

/-- Why an element that is not a list cannot be a paragraph. -/
def refusal? (m : Medium) (v : Value) : Option Fault :=
  if v.isScalar then
    match v.plain? with
    | none => some .integerUnwritable
    | some s => m.textRefusal? s
  else some (.outlineElement v.kind)

mutual

/-- The faults of an element, in the order in which they are come to. A list is a fault at the
head of a list. -/
def offences (m : Medium) (atHead : Bool) : Value → List Fault
  | list items => (if atHead then [nestingFault items] else []) ++ offencesIn m true items
  | tuple items => (if atHead then [nestingFault items] else []) ++ offencesIn m true items
  | v => (v.refusal? m).toList

/-- The faults of some elements, of which the first may be at the head of a list. -/
def offencesIn (m : Medium) (atHead : Bool) : List Value → List Fault
  | [] => []
  | v :: rest => v.offences m atHead ++ offencesIn m false rest

end

mutual

/-- The lists in an element, itself included. -/
def lists : Value → List (List Value)
  | list items => items :: listsIn items
  | tuple items => items :: listsIn items
  | _ => []

/-- The lists in some elements. -/
def listsIn : List Value → List (List Value)
  | [] => []
  | v :: rest => v.lists ++ listsIn rest

end

end Value

open Value

namespace Store

variable {α β : Type} {s t u : Store} {C : Hole} {g : Forest} {c : Cursor}

/-! ## Operations that meet offences -/

/-- An operation comes to its result if there is no offence, and ends at the first one. -/
inductive Meets (done : α → Store → Prop) : List Fault → Except Fault α × Store → Prop where
  | done {a : α} {t : Store} (h : done a t) : Meets done [] (.ok a, t)
  | failed {e : Fault} {es : List Fault} {t : Store} : Meets done (e :: es) (.error e, t)

namespace Meets

variable {done : α → Store → Prop} {done' : β → Store → Prop} {es es' : List Fault}

theorem bind {x : StoreM α} {next : α → StoreM β} (h : Meets done es (x s))
    (hnext : ∀ a t, done a t → Meets done' es' (next a t)) :
    Meets done' (es ++ es') ((x >>= next) s) := by
  rcases hx : x s with ⟨r, t⟩
  rw [hx] at h
  cases h with
  | done hd =>
    rw [bind_ok hx]
    exact hnext _ _ hd
  | failed =>
    rw [bind_error hx]
    exact .failed

/-- What follows an operation cannot fail. -/
theorem map {x : StoreM α} {next : α → StoreM β} (h : Meets done es (x s))
    (hnext : ∀ a t, done a t → Meets done' [] (next a t)) : Meets done' es ((x >>= next) s) := by
  have hbind := h.bind hnext
  rwa [List.append_nil] at hbind

end Meets

/-- A cursor is at the end of a place, and there and below the last paragraph made `n` more
paragraphs have room below some position. -/
structure Roomy (limit n : Nat) (c : Cursor) (g : Forest) : Prop where
  position_eq : c.position = 1 + g.width
  width_le : g.width + n ≤ limit
  last_eq : ∀ id, c.last = some id →
    ∃ g' fields b, g = g' ++ tree id fields b ∧ b.width + n ≤ limit

/-- A new paragraph takes some of the room, and below it there is nothing yet. -/
theorem Roomy.leaf {limit n : Nat} {c : Cursor} {g : Forest} (hc : Roomy limit (n + 1) c g)
    (id : Int) (fields : Fields) :
    Roomy limit n { position := c.position + 1, last := some id } (g ++ tree id fields nil) where
  position_eq := by
    have h := hc.position_eq
    simp only [width_append, width_tree]
    omega
  width_le := by
    have h := hc.width_le
    simp only [width_append, width_tree]
    omega
  last_eq := by
    intro id' hid
    obtain rfl := Option.some.inj hid
    have h := hc.width_le
    refine ⟨g, fields, nil, rfl, ?_⟩
    rw [width_nil]
    omega

/-- What has been made below the last paragraph takes some of the room there. -/
theorem Roomy.below {limit n k : Nat} {c : Cursor} {g b b' : Forest} {id : Int} {fields : Fields}
    (hc : Roomy limit (n + k) c (g ++ tree id fields b)) (hl : c.last = some id)
    (hb' : b'.width + n ≤ limit) : Roomy limit n c (g ++ tree id fields b') where
  position_eq := by
    have h := hc.position_eq
    simp only [width_append, width_tree] at h ⊢
    omega
  width_le := by
    have h := hc.width_le
    simp only [width_append, width_tree] at h ⊢
    omega
  last_eq := by
    intro id' hid
    obtain rfl := Option.some.inj (hl.symm.trans hid)
    exact ⟨g, fields, b', rfl, hb'⟩

end Store

end Bylaws
