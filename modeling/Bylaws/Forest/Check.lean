import Bylaws.Store.Basic

/-!
# Checking positions

The positions of the paragraphs below one should be one, two, three and so on. The check lists
every place where they are not, and every paragraph that is named as a parent but is not there,
in the order in which the parents are first named.
-/

namespace Bylaws.Store

/-- The parents named by some paragraphs, each once, in order of first appearance. -/
def scopes (ps : List Paragraph) : List (Option Int) :=
  ps.foldl (fun found p => if found.contains p.parent then found else found ++ [p.parent]) []

/-- The positions in a scope, in increasing order. -/
def positions (ps : List Paragraph) (scope : Option Int) : List Int :=
  sortBy (· ≤ ·) ((ps.filter (·.parent == scope)).map (·.position))

/-- The positions that a scope of some size should have. -/
def expectedPositions (size : Nat) : List Int :=
  (List.range size).map fun k : Nat => Int.ofNat (k + 1)

/-- A scope in a message. -/
def scopeText : Option Int → Except Fault String
  | none => .ok "None"
  | some id => Value.intText id

/-- A list of positions in a message. -/
def positionsText (ns : List Int) : Except Fault String := do
  return "[" ++ String.intercalate ", " (← ns.mapM Value.intText) ++ "]"

/-- A defect of the rows of a document. -/
inductive Problem where
  | positions (scope : Option Int) (found : List Int)
  | missingParent (id : Int)
  deriving DecidableEq, Repr

/-- The words of a defect, or the fault that a number in them has too many digits. -/
def Problem.message : Problem → Except Fault String
  | .positions scope found => do
    let scope ← scopeText scope
    let expected ← positionsText (expectedPositions found.length)
    return "parent " ++ scope ++ ": positions " ++ (← positionsText found) ++ " != " ++ expected
  | .missingParent id => do return "parent " ++ (← Value.intText id) ++ " does not exist"

/-- The defects of one scope. -/
def problemsIn (ps : List Paragraph) (scope : Option Int) : List Problem :=
  let found := positions ps scope
  (if found = expectedPositions found.length then [] else [.positions scope found]) ++
    match scope with
    | none => []
    | some id => if ps.any (·.id == id) then [] else [.missingParent id]

/-- All defects of a document. -/
def problems (s : Store) : List Problem :=
  (scopes s.paragraphs).flatMap (problemsIn s.paragraphs)

/-- What the check says: the words of all defects. -/
def check (s : Store) : Except Fault (List String) := s.problems.mapM Problem.message

end Bylaws.Store
