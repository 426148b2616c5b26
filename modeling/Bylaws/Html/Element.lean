/-!
# Markup

The element trees that documents are rendered as, and how they are written. Only the three
characters that markup gives a meaning are replaced in text.
-/

namespace Bylaws.Html

/-- The elements of a rendered document. An item carries its number in the list. -/
inductive Tag where
  | section_
  | headingGroup
  | heading (level : Nat)
  | orderedList
  | item (value : Nat)
  | paragraph
  deriving DecidableEq, Repr

inductive Element where
  | text (s : String)
  | lineBreak
  | node (tag : Tag) (content : List Element)
  deriving Inhabited

namespace Tag

def name : Tag → String
  | section_ => "section"
  | headingGroup => "hgroup"
  | heading level => "h" ++ Nat.repr level
  | orderedList => "ol"
  | item _ => "li"
  | paragraph => "p"

/-- What stands between the angle brackets at the start of an element. -/
def opening : Tag → String
  | item value => "li value=\"" ++ Nat.repr value ++ "\""
  | t => t.name

end Tag

/-- A character of text in markup. -/
def escapeChar (c : Char) : List Char :=
  if c = '&' then "&amp;".toList
  else if c = '<' then "&lt;".toList
  else if c = '>' then "&gt;".toList
  else [c]

/-- A text in markup. -/
def escape (s : String) : List Char := s.toList.flatMap escapeChar

mutual

/-- An element as it is written. -/
def Element.write : Element → List Char
  | .text s => escape s
  | .lineBreak => "<br/>".toList
  | .node tag content =>
    '<' :: tag.opening.toList ++ '>' :: writeAll content ++
      '<' :: '/' :: tag.name.toList ++ ['>']

/-- Elements as they are written, one after the other. -/
def writeAll : List Element → List Char
  | [] => []
  | e :: rest => e.write ++ writeAll rest

end

end Bylaws.Html
