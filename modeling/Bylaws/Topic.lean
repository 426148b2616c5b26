import Bylaws.Index

/-!
# Topics

The numbers of the paragraphs with given topics, as a list in words. Neighbouring numbers can
be drawn together into ranges; two numbers are neighbours if the integers they begin with are.
-/

namespace Bylaws

/-- The integer that a number begins with, after blanks. -/
def leadingInteger? (number : List Char) : Except Fault (Option Nat) :=
  match (Text.trimStart number).takeWhile Text.isDigit with
  | [] => .ok none
  | digits =>
    if Decimal.digitLimit < digits.length then .error (.integerTooLong digits.length)
    else .ok (some (Text.digitsValue digits))

/-- Whether the integer that `following` begins with is one more than that of `previous`. -/
def isAdjacent (previous following : String) : Except Fault Bool := do
  match ← leadingInteger? previous.toList, ← leadingInteger? following.toList with
  | some a, some b => return b == a + 1
  | _, _ => return false

/-- A row of adjacent numbers, of which only the two ends are written. -/
structure Run where
  first : String
  last : String
  single : Bool
  deriving DecidableEq, Repr

/-- Cuts numbers into the longest runs of adjacent ones, after a run in progress. -/
def runsFrom (run : Run) : List String → Except Fault (List Run)
  | [] => .ok [run]
  | n :: rest => do
    if ← isAdjacent run.last n then runsFrom { run with last := n, single := false } rest
    else return run :: (← runsFrom ⟨n, n, true⟩ rest)

def runs : List String → Except Fault (List Run)
  | [] => .ok []
  | n :: rest => runsFrom ⟨n, n, true⟩ rest

/-- A run as its only number, or as its ends with a dash between. -/
def Run.text (r : Run) : String := if r.single then r.first else r.first ++ "–" ++ r.last

/-- Numbers in words, with adjacent ones drawn together. -/
def consolidate (numbers : List String) : Except Fault String := do
  return String.intercalate ", " ((← runs numbers).map Run.text)

namespace Store

/-- The included paragraphs with one of some topics, by their position among siblings. -/
def withTopics (s : Store) (choices : Choices) (topics : List Value) : List Paragraph :=
  let tagged (p : Paragraph) : Bool :=
    topics.any (Value.sameKey · ((p.topic.map Value.text).getD .null))
  sortBy (fun p q => p.position ≤ q.position)
    (s.paragraphs.filter fun p => tagged p && p.isIncluded choices)

/-- The numbers of some paragraphs that have one. -/
def numbersOf (s : Store) (choices : Choices) (numbering : Numbering) :
    List Paragraph → Except Fault (List String)
  | [] => .ok []
  | p :: rest => do
    match ← s.number? choices numbering p with
    | some n => return n :: (← s.numbersOf choices numbering rest)
    | none => s.numbersOf choices numbering rest

/-- The topics that a value lists; each must be usable as a key. -/
def topicsOf (topics : Value) : Except Fault (List Value) :=
  match topics.members? with
  | none => .error (.notIterable topics.fullKind)
  | some members =>
    match Value.keyObstacleIn? members with
    | some kind => .error (.notKey kind)
    | none => .ok members

/-- The numbers of the included paragraphs with any of some topics. -/
def topicNumbers (s : Store) (choices : Choices) (numbering : Numbering) (topics : List Value)
    (consolidated : Bool) : Except Fault String := do
  let numbers ← s.numbersOf choices numbering (s.withTopics choices topics)
  if consolidated then consolidate numbers else return String.intercalate ", " numbers

end Store

end Bylaws
