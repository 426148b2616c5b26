import Bylaws.Numbering
import Bylaws.Resolution
import Bylaws.Forest.Basic

/-!
# Ranks and numbers

A paragraph is numbered unless it is a heading, continues another one, or is left out under the
choices. Its rank counts the numbered paragraphs among its siblings up to it, and its number
joins the ranks on its lineage, each written as its depth asks for. Ancestors without a rank
are passed over.
-/

namespace Bylaws

namespace Paragraph

/-- Whether the choices admit a paragraph. -/
def isIncluded (p : Paragraph) (choices : Choices) : Bool := Body.isIncluded p.body choices

def isNumbered (p : Paragraph) (choices : Choices) : Bool :=
  !p.isHeading && !p.continuation && p.isIncluded choices

end Paragraph

/-- How many of some siblings are numbered, up to the one with an id; `none` if it is not
among them. -/
def rankAmong (choices : Choices) (id : Int) : (before : Nat) → List Paragraph → Option Nat
  | _, [] => none
  | before, p :: rest =>
    let count := if p.isNumbered choices then before + 1 else before
    if p.id = id then some count else rankAmong choices id count rest

namespace Store

/-- The rank of a paragraph among its numbered siblings. -/
def rank? (s : Store) (choices : Choices) (p : Paragraph) : Option Nat :=
  if p.isNumbered choices then rankAmong choices p.id 0 (s.children p.parent) else none

/-- The ranks of some paragraphs as they are written from a depth on; paragraphs without a rank
are passed over. -/
def rankTexts (s : Store) (choices : Choices) (numbering : Numbering) :
    (depth : Nat) → List Paragraph → Except Fault (List String)
  | _, [] => .ok []
  | depth, p :: rest =>
    match s.rank? choices p with
    | none => s.rankTexts choices numbering (depth + 1) rest
    | some n => do
      let text ← numbering.number n depth
      return text :: (← s.rankTexts choices numbering (depth + 1) rest)

/-- The number of a paragraph, if it is numbered. -/
def number? (s : Store) (choices : Choices) (numbering : Numbering) (p : Paragraph) :
    Except Fault (Option String) :=
  if p.isNumbered choices then do
    let texts ← s.rankTexts choices numbering 1 (← s.lineage p)
    return some (numbering.join texts)
  else .ok none

/-- The first of some paragraphs that has a given number. -/
def firstNumbered (s : Store) (choices : Choices) (numbering : Numbering) (number : String) :
    List Paragraph → Except Fault (Option Paragraph)
  | [] => .ok none
  | p :: rest => do
    if (← s.number? choices numbering p) = some number then return some p
    else s.firstNumbered choices numbering number rest

/-- The first paragraph in document order whose number is the reference, blanks at its ends
aside. -/
def byReference? (s : Store) (choices : Choices) (numbering : Numbering) (reference : String) :
    Except Fault (Option Paragraph) :=
  s.firstNumbered choices numbering (String.ofList (Text.trim reference.toList)) s.documentOrder

end Store

end Bylaws
