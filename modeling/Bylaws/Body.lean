import Bylaws.Directive

/-!
# Paragraph bodies

A body may begin with a condition on a choice, and what follows it is plain text with
insertion tokens in between. `pieces` cuts a text into single plain characters and insertion
tokens: a token starts wherever the mark is followed by an identifier, it takes the whole
identifier, and the text after it is cut in the same way.
-/

namespace Bylaws

/-- A condition holds if the choice under its key is true, or is not true. -/
structure Condition where
  polarity : Bool
  key : String
  deriving DecidableEq, Repr

/-- A character of a text, or a token to be replaced. -/
inductive Piece where
  | plain (c : Char)
  | insertion (name : List Char)
  deriving DecidableEq, Repr

namespace Body

/-- The condition at the head of a body, and the text after it. -/
def splitCondition (body : List Char) : Option Condition × List Char :=
  match mark.isPrefixOf? body with
  | none => (none, body)
  | some s =>
    let keyed (polarity : Bool) (s : List Char) : Option (Condition × List Char) :=
      (closedIdentifier? s).map fun (id, rest) => (⟨polarity, String.ofList id⟩, rest)
    match ("true#".toList.isPrefixOf? s).bind (keyed true),
        ("false#".toList.isPrefixOf? s).bind (keyed false) with
    | some (c, rest), _ => (some c, rest)
    | none, some (c, rest) => (some c, rest)
    | none, none => (none, body)

/-- The condition that a body begins with. -/
def condition? (body : String) : Option Condition := (splitCondition body.toList).1

/-- The name of the insertion token at the head of a text. -/
def tokenName? (s : List Char) : Option (List Char) :=
  (mark.isPrefixOf? s).bind fun rest => (identifier? rest).map (·.1)

/-- The pieces of a text after its first `skip` characters, which belong to a token that has
been cut off already. -/
def piecesAfter : (skip : Nat) → List Char → List Piece
  | _, [] => []
  | skip + 1, _ :: s => piecesAfter skip s
  | 0, c :: s =>
    match tokenName? (c :: s) with
    | some name => .insertion name :: piecesAfter (mark.length + name.length - 1) s
    | none => .plain c :: piecesAfter 0 s

/-- The pieces of a text. -/
def pieces (s : List Char) : List Piece := piecesAfter 0 s

/-- The names of the insertions in a body, in order. -/
def insertionNames (body : String) : List String :=
  (pieces (splitCondition body.toList).2).filterMap fun
    | .insertion name => some (String.ofList name)
    | .plain _ => none

end Body

example : Body.pieces "#rticles##rticles#a.".toList =
    "#rticles#".toList.map Piece.plain ++ [.insertion ['a'], .plain '.'] := by decide

end Bylaws
