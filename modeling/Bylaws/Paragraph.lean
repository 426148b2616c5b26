import Bylaws.Directive
import Bylaws.Sorting

/-!
# Paragraphs

A paragraph is its fields and its place: the document it belongs to, the paragraph above it,
and its position among the paragraphs below the same one, counted from one. Places are given
by ids alone, so a paragraph that has been read stays as it was when the document changes.
-/

namespace Bylaws

structure Paragraph extends Fields where
  id : Int
  documentId : String
  /-- The paragraph above, or `none` at the top level. -/
  parent : Option Int
  position : Int
  deriving DecidableEq, Repr, Inhabited

namespace Paragraph

def fields (p : Paragraph) : Fields := p.toFields

def isHeading (p : Paragraph) : Bool := p.heading.isSome

def isTopLevel (p : Paragraph) : Bool := p.parent.isNone

/-- The import text of a paragraph. -/
def source (p : Paragraph) : String := p.fields.source

/-- The order of siblings: by position, and by id at equal positions. -/
def precedes (p q : Paragraph) : Bool :=
  p.position < q.position || (p.position == q.position && p.id ≤ q.id)

/-- Paragraphs in the order of siblings. -/
def inOrder (ps : List Paragraph) : List Paragraph := sortBy precedes ps

end Paragraph

end Bylaws
