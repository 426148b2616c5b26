import Bylaws.Store.Basic

/-!
# Editing the forest

The operations on the structure of a document. Each reads the places it needs, works out all
moves, and makes them in one transaction, so positions among siblings stay one, two, three and
so on, and an operation that fails changes nothing.
-/

namespace Bylaws.Store

/-- The place that a paragraph is to have. -/
structure Move where
  id : Int
  position : Int
  parent : Option Int
  deriving DecidableEq, Repr

/-- Makes some moves in order. -/
def makeMoves (moves : List Move) : StoreM Unit :=
  moves.forM fun m => move m.id m.position m.parent

/-- The moves that shift some paragraphs within their scope. -/
def shifted (offset : Int) (ps : List Paragraph) : List Move :=
  ps.map fun p => ⟨p.id, p.position + offset, p.parent⟩

/-- Adds a paragraph as the last one below `parent`. -/
def append (fields : Fields) (parent : Option Int) : StoreM Int := transaction do
  let s ← MonadState.get
  create parent (← s.nextPosition parent) fields

/-- The neighbour that an inserted paragraph is placed by. -/
inductive Neighbour where
  | before (id : Int)
  | after (id : Int)
  deriving DecidableEq, Repr

/-- The neighbour given by two ids, of which exactly one must be there. -/
def Neighbour.of : (before after : Option Int) → Except Fault Neighbour
  | some id, none => .ok (.before id)
  | none, some id => .ok (.after id)
  | _, _ => .error .neighbourNotUnique

/-- Adds a paragraph right before or right after another one. -/
def insert (fields : Fields) (neighbour : Neighbour) : StoreM Int := transaction do
  let s ← MonadState.get
  let (reference, position) ←
    match neighbour with
    | .before id => do let r ← s.get id; pure (r, r.position)
    | .after id => do let r ← s.get id; pure (r, r.position + 1)
  let siblings := s.children reference.parent
  makeMoves (shifted 1 (siblings.reverse.filter fun p => position ≤ p.position))
  create reference.parent position fields

/-- Makes a paragraph the last one below the sibling before it. Answers whether there was one. -/
def indent (id : Int) : StoreM Bool := transaction do
  let s ← MonadState.get
  let p ← s.get id
  let siblings := s.children p.parent
  match siblings.find? fun q => q.position == p.position - 1 with
  | none => return false
  | some previous =>
    makeMoves (⟨id, s.childCount (some previous.id) + 1, some previous.id⟩ ::
      shifted (-1) (siblings.filter fun q => p.position < q.position))
    return true

/-- The moves that put some paragraphs below `parent`, from `position` on. -/
def placed (parent : Int) (position : Int) : List Paragraph → List Move
  | [] => []
  | p :: rest => ⟨p.id, position, some parent⟩ :: placed parent (position + 1) rest

/-- Puts a paragraph right after its parent. The siblings after it go below it, after what was
there. Answers whether it had a parent. -/
def outdent (id : Int) : StoreM Bool := transaction do
  let s ← MonadState.get
  let p ← s.get id
  match p.parent with
  | none => return false
  | some parentId =>
    let parent ← s.get parentId
    let after := (s.children parent.parent).filter fun q => parent.position < q.position
    let later := (s.children (some parentId)).filter fun q => p.position < q.position
    makeMoves (shifted 1 after ++ [⟨id, parent.position + 1, parent.parent⟩] ++
      placed id (s.childCount (some id) + 1) later)
    return true

/-- Removes a paragraph with all below it. -/
def delete (id : Int) : StoreM Unit := transaction do
  let s ← MonadState.get
  let p ← s.get id
  let later := (s.children p.parent).filter fun q => p.position < q.position
  deleteSubtree id
  makeMoves (shifted (-1) later)

end Bylaws.Store
