import Bylaws.Html.Element
import Bylaws.Outline
import Bylaws.Text.Parts

/-!
# Laying a document out

How siblings become elements. Headings that continue one another form a group, which is an
element of its own if there are two or more of them; the children of all its headings follow
it. A run of other paragraphs is an ordered list of items, each with its rank as its value and
with its children inside. A paragraph that continues another one adds its text and its children
to the item before it, or stands alone if there is none. A line end in a text is a line break.
-/

namespace Bylaws.Html

/-- The elements of a text: its lines with a break between each two. Empty lines leave no text. -/
def ofLines : List (List Char) → List Element
  | [] => []
  | line :: rest =>
    (if line.isEmpty then [] else [.text (String.ofList line)]) ++
      match rest with
      | [] => []
      | _ :: _ => .lineBreak :: ofLines rest

/-- The elements of a text. -/
def ofText (s : String) : List Element := ofLines (Text.parts '\n' s.toList)

/-- A paragraph that is shown, with its text and the elements of what is below it. -/
structure Entry where
  paragraph : Paragraph
  text : String
  below : Except Fault (List Element)

/-- A run of siblings that are laid out together. -/
inductive Block where
  | headings (first : Entry) (rest : List Entry)
  | items (entries : List Entry)

/-- Puts an entry in front of the blocks after it. -/
def addEntry (e : Entry) (blocks : List Block) : List Block :=
  if e.paragraph.isHeading then
    match blocks with
    | .headings next more :: rest =>
      if next.paragraph.continuation then .headings e (next :: more) :: rest
      else .headings e [] :: blocks
    | blocks => .headings e [] :: blocks
  else
    match blocks with
    | .items entries :: rest => .items (e :: entries) :: rest
    | blocks => .items [e] :: blocks

/-- The blocks of some siblings. -/
def blocks (entries : List Entry) : List Block := entries.foldr addEntry []

/-- The greatest level that an element for headings has. -/
def deepestHeading : Nat := 6

def headingElement (e : Entry) : Element :=
  .node (.heading (min (e.paragraph.heading.getD 1).toNat deepestHeading)) (ofText e.text)

/-- What is below several entries. -/
def allBelow : List Entry → Except Fault (List Element)
  | [] => .ok []
  | e :: rest => do return (← e.below) ++ (← allBelow rest)

/-- A heading, or a group of several, and what is below. -/
def headingElements (first : Entry) (rest : List Entry) : Except Fault (List Element) := do
  let below ← allBelow (first :: rest)
  match rest with
  | [] => return headingElement first :: below
  | rest => return .node .headingGroup ((first :: rest).map headingElement) :: below

/-- Content with a text added that continues it; a blank parts it from a text at the end. -/
def continued (content : List Element) (text : String) : List Element :=
  match content.getLast? with
  | some (.text _) => content ++ .text " " :: ofText text
  | _ => content ++ ofText text

/-- The items of a run that is being laid out: what stands before the list, and the finished
items with the one in progress last. -/
structure Items where
  loose : List Element := []
  done : List Element := []
  current : Option (Nat × List Element) := none

/-- The list with its item in progress finished. -/
def Items.elements (i : Items) : List Element :=
  match i.current with
  | none => i.loose
  | some (n, content) => i.loose ++ [.node .orderedList (i.done ++ [.node (.item n) content])]

/-- Adds an entry to a run. -/
def Items.add (rank : Paragraph → Option Nat) (i : Items) (e : Entry) : Except Fault Items := do
  if e.paragraph.continuation then
    match i.current with
    | some (n, content) =>
      return { i with current := some (n, continued content e.text ++ (← e.below)) }
    | none =>
      return { i with loose := i.loose ++ [.node .paragraph (ofText e.text ++ (← e.below))] }
  else
    let content := ofText e.text ++ (← e.below)
    let done :=
      match i.current with
      | some (n, finished) => i.done ++ [.node (.item n) finished]
      | none => i.done
    return { i with done, current := some ((rank e.paragraph).getD 0, content) }

/-- The elements of a run of paragraphs that are no headings. -/
def itemElements (rank : Paragraph → Option Nat) (entries : List Entry) :
    Except Fault (List Element) :=
  (entries.foldlM (Items.add rank) {}).map Items.elements

def Block.elements (rank : Paragraph → Option Nat) : Block → Except Fault (List Element)
  | .headings first rest => headingElements first rest
  | .items entries => itemElements rank entries

/-- The elements of some blocks. -/
def blockElements (rank : Paragraph → Option Nat) : List Block → Except Fault (List Element)
  | [] => .ok []
  | b :: rest => do return (← b.elements rank) ++ (← blockElements rank rest)

/-- The entries with their texts ended as those of a list. -/
def endTexts (entries : List Entry) : List Entry :=
  match entries with
  | [] => []
  | e :: rest =>
    let mark := if rest.isEmpty then "." else ";"
    { e with text := e.text ++ mark } :: endTexts rest

/-- The siblings that are shown, with their texts. -/
def shownEntries (s : Store) (v : View) :
    List (Paragraph × Except Fault (List Element)) → Except Fault (List Entry)
  | [] => .ok []
  | (p, below) :: rest => do
    match ← s.displayText v p with
    | none => shownEntries s v rest
    | some text => return ⟨p, text, below⟩ :: (← shownEntries s v rest)

/-- The elements of some siblings. -/
def sequence (s : Store) (v : View) (listed : Bool)
    (siblings : List (Paragraph × Except Fault (List Element))) :
    Except Fault (List Element) := do
  let entries ← shownEntries s v siblings
  blockElements (s.rank? v.choices) (blocks (if listed then endTexts entries else entries))

end Bylaws.Html

namespace Bylaws.Store

/-- The element tree of a document. -/
def page (s : Store) (v : View) : Except Fault Html.Element := do
  let below (p : Paragraph) := Html.sequence s v p.list
  return .node .section_ (← Html.sequence s v false (foldForest below s.forest))

/-- A document as markup. -/
def html (s : Store) (v : View) : Except Fault String := do
  return String.ofList (← s.page v).write

end Bylaws.Store
