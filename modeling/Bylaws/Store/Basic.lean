import Bylaws.Paragraph

/-!
# The paragraph store

A store keeps the paragraphs of one document as rows, in the order of their ids. Ids are issued
from one upward and never twice, whatever becomes of the paragraph.

A store in memory holds one document. A database file holds the rows of many, under one count
of ids, and a store on it sees the rows of its document only. The two differ in what a row can
hold, since a database keeps positions and heading levels in 32 bits, and in how a transaction
inside another one ends: in memory it is undone alone, in a database it is part of the outer
one and is undone only with it. A number that a database cannot keep spoils the transaction in
which it is written: the transaction is undone in the end, whatever comes after. Numbers far out
of range are refused before they reach a database, and spoil nothing.
-/

namespace Bylaws

/-- Where rows are kept. -/
inductive Medium where
  | memory
  | database
  deriving DecidableEq, Repr, Inhabited

structure Store where
  medium : Medium := .memory
  documentId : String
  /-- All rows, those of other documents in the same file included. -/
  rows : List Paragraph := []
  nextId : Int := 1
  /-- A transaction of a database is open. -/
  inTransaction : Bool := false
  /-- The open transaction can no longer be committed. -/
  spoilt : Bool := false
  deriving DecidableEq, Repr, Inhabited

/-- A store operation: an answer or a fault, and the store afterwards in either case. -/
abbrev StoreM := ExceptT Fault (StateM Store)

namespace Store

/-! ## Reading -/

/-- The paragraphs of the document, by id. -/
def paragraphs (s : Store) : List Paragraph := s.rows.filter (·.documentId == s.documentId)

def find? (s : Store) (id : Int) : Option Paragraph := s.paragraphs.find? (·.id == id)

def contains (s : Store) (id : Int) : Bool := (s.find? id).isSome

/-- Whether a number can be handed to a database: it fits into 128 bits, with a sign or
without. -/
def isTransferable (n : Int) : Bool := -(Int.pow 2 127) ≤ n && n < Int.pow 2 128

/-- Checks that some numbers can be handed to the medium. -/
def checkTransfer (s : Store) (ns : List Int) : Except Fault Unit :=
  match s.medium with
  | .memory => .ok ()
  | .database => if ns.all isTransferable then .ok () else .error .notTransferable

/-- Checks that a number can name a paragraph. The id of a stored paragraph can, any other number
only if it can be handed to the medium. -/
def checkName (s : Store) : Option Int → Except Fault Unit
  | none => .ok ()
  | some id => if s.contains id then .ok () else s.checkTransfer [id]

/-- The paragraph with an id. -/
def get (s : Store) (id : Int) : Except Fault Paragraph := do
  s.checkName (some id)
  match s.find? id with
  | some p => .ok p
  | none => .error (.paragraphMissing id)

/-- The paragraphs right below one, or those of the top level, in order. -/
def children (s : Store) (parent : Option Int) : List Paragraph :=
  Paragraph.inOrder (s.paragraphs.filter (·.parent == parent))

/-- The paragraphs right below one that is named by any number. -/
def childrenOf (s : Store) (parent : Option Int) : Except Fault (List Paragraph) := do
  s.checkName parent
  return s.children parent

/-- The number of paragraphs right below one. -/
def childCount (s : Store) (parent : Option Int) : Nat :=
  (s.paragraphs.filter (·.parent == parent)).length

/-- The position of the next paragraph below one that is named by any number. -/
def nextPosition (s : Store) (parent : Option Int) : Except Fault Int := do
  s.checkName parent
  return s.childCount parent + 1

/-! ## Writing -/

/-- Whether a number fits into 32 bits. -/
def fits (n : Int) : Bool := -2147483648 ≤ n && n ≤ 2147483647

/-- Whether the medium can hold a position and a heading level. -/
def canHold (s : Store) (position : Int) (heading : Option Int) : Bool :=
  match s.medium with
  | .memory => true
  | .database => fits position && (heading.map fits).getD true

/-- Checks that a parent is there. -/
def checkParent (s : Store) : Option Int → Except Fault Unit
  | none => .ok ()
  | some id => do let _ ← s.get id

/-- Checks that the medium can hold a position and a heading level. A number that it cannot
hold spoils the open transaction. -/
def checkRange (position : Int) (heading : Option Int) : StoreM Unit := do
  let s ← MonadState.get
  s.checkTransfer (position :: heading.toList)
  if s.canHold position heading then return
  set { s with spoilt := s.inTransaction }
  throw .outOfStoredRange

/-- Adds a paragraph and answers its id. -/
def create (parent : Option Int) (position : Int) (fields : Fields) : StoreM Int := do
  let s ← MonadState.get
  s.checkParent parent
  checkRange position fields.heading
  let row : Paragraph :=
    { fields with id := s.nextId, documentId := s.documentId, parent, position }
  set { s with rows := s.rows ++ [row], nextId := s.nextId + 1 }
  return s.nextId

/-- A row of the document moved to another place; other rows stay as they are. -/
def moveRow (documentId : String) (id : Int) (position : Int) (parent : Option Int)
    (p : Paragraph) : Paragraph :=
  if p.documentId = documentId && p.id = id then { p with position, parent } else p

/-- Puts a paragraph into another place. -/
def move (id : Int) (position : Int) (parent : Option Int) : StoreM Unit := do
  let s ← MonadState.get
  let _ ← s.get id
  s.checkParent parent
  checkRange position none
  set { s with rows := s.rows.map (moveRow s.documentId id position parent) }

/-- The ids found so far together with all that lie below the frontier. Every step takes one id
off the frontier and adds the ids right below it that are new. -/
def closure (ps : List Paragraph) : (fuel : Nat) → (frontier found : List Int) → List Int
  | 0, _, found => found
  | _, [], found => found
  | fuel + 1, id :: frontier, found =>
    let new := (ps.filter fun p => p.parent == some id && !found.contains p.id).map (·.id)
    closure ps fuel (new ++ frontier) (new ++ found)

/-- The ids right below some ids. -/
def idsBelow (ps : List Paragraph) (ids : List Int) : List Int :=
  ids.flatMap fun id => (ps.filter (·.parent == some id)).map (·.id)

/-- Some ids together with all that lie below them, in rounds. Every round finds the ids right
below those of the round before. -/
def rounds (ps : List Paragraph) : (fuel : Nat) → (ids : List Int) → List Int
  | 0, _ => []
  | fuel + 1, ids => ids ++ rounds ps fuel (idsBelow ps ids)

/-- The ids of a paragraph and of all below it. In memory a worklist finds them, in a database a
recursive query. -/
def subtreeIds (s : Store) (id : Int) : List Int :=
  match s.medium with
  | .memory => closure s.paragraphs (s.paragraphs.length + 1) [id] [id]
  | .database => rounds s.paragraphs (s.paragraphs.length + 1) [id]

/-- Removes a paragraph and all below it. -/
def deleteSubtree (id : Int) : StoreM Unit := do
  let s ← MonadState.get
  let _ ← s.get id
  let doomed := s.subtreeIds id
  set { s with
    rows := s.rows.filter fun p => !(p.documentId == s.documentId && doomed.contains p.id) }

/-! ## Transactions -/

/-- Runs an operation whose writes are undone if its answer asks for it. Issued ids stay
issued. In a database the operation is part of a transaction that is open already, and a
transaction that is spoilt is undone. -/
def guarded {α : Type} (undone : α → Bool) (body : Store → α × Store) (s : Store) : α × Store :=
  match s.medium with
  | .memory =>
    let (a, t) := body s
    (a, if undone a then { t with rows := s.rows } else t)
  | .database =>
    if s.inTransaction then body s
    else
      let (a, t) := body { s with inTransaction := true }
      let rows := if undone a || t.spoilt then s.rows else t.rows
      (a, { t with rows, inTransaction := false, spoilt := false })

/-- Whether an answer is a fault. -/
def isFault {α : Type} : Except Fault α → Bool
  | .error _ => true
  | .ok _ => false

/-- Runs an operation so that a fault undoes its writes. -/
def transaction {α : Type} (body : StoreM α) : StoreM α := guarded isFault body

/-- A store on the same rows for another document. -/
def forDocument (s : Store) (documentId : String) : Store :=
  { s with documentId, inTransaction := false, spoilt := false }

end Store

end Bylaws
