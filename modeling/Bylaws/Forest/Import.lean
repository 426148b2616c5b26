import Bylaws.Store.Basic

/-!
# Importing an outline

An outline is a list in which a text makes a paragraph, and a list holds what lies below the
paragraph made just before it. Numbers and truth values stand for their texts. A list with no
paragraph before it at its level is a jump in nesting, and a list within itself would never end.
-/

namespace Bylaws

/-- The text of an element of an outline that is not a list. -/
def Value.outlineText (v : Value) : Except Fault String :=
  match v with
  | .text s => .ok s
  | .bool _ | .int _ | .float _ => v.plain
  | _ => .error (.outlineElement v.kind)

/-- The first element of a list that has nothing to lie below. -/
def nestingFault (items : List Value) : Fault :=
  let first := items.headD .null
  Fault.showing first (.nestingJump first)

/-- A part of some labelled collections by itself, with the collections in place of their
labels. -/
def Value.closed (around : List (Nat × Value)) (v : Value) : Value :=
  around.foldl (fun v e => expand e.1 e.2 v) v

/-- The members of the collection that a label stands for. -/
def labelled (around : List (Nat × Value)) (label : Nat) : List Value :=
  ((around.lookup label).bind Value.members?).getD []

namespace Store

/-- Where the next element of a list goes: its position, and the paragraph made just before. -/
structure Cursor where
  position : Int
  last : Option Int := none

/-- The paragraph that a nested list goes below, and where its first element goes. -/
def enter (c : Cursor) (items : List Value) : StoreM (Int × Cursor) := do
  match c.last with
  | none => throw (nestingFault items)
  | some id => return (id, { position := (← MonadState.get).childCount (some id) + 1 })

mutual

/-- Makes the paragraphs of one element of a list below `parent`, inside collections with labels.
Answers the new ids in document order, and where the next element goes. -/
def importItem (around : List (Nat × Value)) (parent : Option Int) (c : Cursor) :
    Value → StoreM (List Int × Cursor)
  | .list items => do
    let (id, inner) ← enter c (items.map (·.closed around))
    return (← importItems around (some id) inner items, c)
  | .tuple items => do
    let (id, inner) ← enter c (items.map (·.closed around))
    return (← importItems around (some id) inner items, c)
  | .loop label v => importItem ((label, (Value.loop label v).closed around) :: around) parent c v
  | .again label => do
    let _ ← enter c (labelled around label)
    throw .endless
  | v => do
    let fields ← Fields.ofText (← v.outlineText)
    let id ← create parent c.position fields
    return ([id], { position := c.position + 1, last := some id })

/-- Makes the paragraphs of a list below `parent`. Answers the new ids in document order. -/
def importItems (around : List (Nat × Value)) (parent : Option Int) (c : Cursor) :
    List Value → StoreM (List Int)
  | [] => pure []
  | v :: rest => do
    let (ids, c) ← importItem around parent c v
    return ids ++ (← importItems around parent c rest)

end

/-- Makes the paragraphs of an outline after those that lie below `parent` already. -/
def importOutline (outline : Value) (parent : Option Int) : StoreM (List Int) := transaction do
  match outline.members? with
  | none => throw (.notIterable outline.fullKind)
  | some items =>
    let s ← MonadState.get
    importItems [] parent { position := ← s.nextPosition parent } items

end Store

end Bylaws
