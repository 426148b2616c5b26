import Bylaws.Store.Basic

/-!
# Lineage

The paragraphs on the way from the top level down to a paragraph. The climb is bounded by the
number of rows, which is enough wherever it ends at all.
-/

namespace Bylaws.Store

/-- A paragraph after its ancestors, the topmost first. -/
def climb (s : Store) : (fuel : Nat) → Paragraph → Except Fault (List Paragraph)
  | 0, p => .ok [p]
  | fuel + 1, p =>
    match p.parent with
    | none => .ok [p]
    | some id => do return (← s.climb fuel (← s.get id)) ++ [p]

/-- The paragraphs from the top level down to `p`, which is the last. The place of `p` is the
one it had when it was read. -/
def lineage (s : Store) (p : Paragraph) : Except Fault (List Paragraph) :=
  s.climb (s.rows.length + 1) p

/-- One at the top level, two below it, and so on. -/
def depth (s : Store) (p : Paragraph) : Except Fault Nat := (s.lineage p).map List.length

end Bylaws.Store
