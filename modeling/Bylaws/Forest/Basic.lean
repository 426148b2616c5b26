import Bylaws.Store.Lineage

/-!
# The forest of a document

The rows of a store seen as an ordered forest. All renderings recurse on it: `foldForest`
answers each node from the answers of the nodes right below it.
-/

namespace Bylaws

/-- A paragraph with the nodes right below it, in order. -/
inductive Node where
  | mk (paragraph : Paragraph) (below : List Node)
  deriving Inhabited

mutual

/-- The paragraphs of a node in document order, with their depths. -/
def Node.walk (depth : Nat) : Node → List (Paragraph × Nat)
  | .mk p below => (p, depth) :: walkForest (depth + 1) below

/-- The paragraphs of a forest in document order, with their depths. -/
def walkForest (depth : Nat) : List Node → List (Paragraph × Nat)
  | [] => []
  | n :: rest => n.walk depth ++ walkForest depth rest

end

mutual

/-- The answer of a node: `f` is given its paragraph, and each paragraph right below with its
answer. -/
def Node.fold {α : Type} (f : Paragraph → List (Paragraph × α) → α) : Node → α
  | .mk p below => f p (foldForest f below)

/-- Each topmost paragraph of a forest with its answer. -/
def foldForest {α : Type} (f : Paragraph → List (Paragraph × α) → α) :
    List Node → List (Paragraph × α)
  | [] => []
  | .mk p below :: rest => (p, f p (foldForest f below)) :: foldForest f rest

end

namespace Store

/-- The nodes below a paragraph, to a bounded depth. -/
def branches (s : Store) : (fuel : Nat) → Option Int → List Node
  | 0, _ => []
  | fuel + 1, parent =>
    (s.children parent).map fun p => .mk p (s.branches fuel (some p.id))

/-- The nodes right below a paragraph. No branch is longer than the number of rows. -/
def below (s : Store) (parent : Option Int) : List Node := s.branches s.rows.length parent

/-- The forest of the document. -/
def forest (s : Store) : List Node := s.below none

/-- The paragraphs below one in document order, with their depths in the document. -/
def walkBelow (s : Store) (parent : Option Int) : Except Fault (List (Paragraph × Nat)) :=
  match parent with
  | none => .ok (walkForest 1 s.forest)
  | some id => do
    let depth ← s.depth (← s.get id)
    return walkForest (depth + 1) (s.below parent)

/-- All paragraphs in document order, with their depths. -/
def walk (s : Store) : List (Paragraph × Nat) := walkForest 1 s.forest

/-- The paragraphs in document order. -/
def documentOrder (s : Store) : List Paragraph := s.walk.map (·.1)

end Store

end Bylaws
