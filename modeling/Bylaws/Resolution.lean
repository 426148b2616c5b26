import Bylaws.Body
import Bylaws.Settings

/-!
# Resolving bodies

What a body shows under given choices and insertions: nothing if its condition does not hold,
and otherwise the text after the condition with each insertion token replaced by its text, or
by a marker if there is none. Replaced text is not looked at again.
-/

namespace Bylaws

/-- Whether the choices admit a condition. A choice that is not made counts as false. -/
def Condition.admits (c : Condition) (choices : Choices) : Bool :=
  if c.polarity then choices.isTrue c.key else !choices.isTrue c.key

namespace Body

/-- Whether a body is shown. -/
def isIncluded (body : String) (choices : Choices) : Bool :=
  match condition? body with
  | none => true
  | some c => c.admits choices

/-- The text that a piece becomes. -/
def fill (insertions : Insertions) (missing : String) : Piece → List Char
  | .plain c => [c]
  | .insertion name => ((insertions.text? (String.ofList name)).getD missing).toList

/-- Replaces the insertion tokens of a text. -/
def substitute (s : List Char) (insertions : Insertions) (missing : String) : List Char :=
  (pieces s).flatMap (fill insertions missing)

/-- The text that a body shows, or `none` if it is left out. -/
def resolve? (body : String) (choices : Choices) (insertions : Insertions) (missing : String) :
    Option String :=
  if isIncluded body choices then
    some (String.ofList (substitute (splitCondition body.toList).2 insertions missing))
  else none

/-- All that a body comes to under settings that are given as values. The choices are read
only if the body has a condition, and before the insertions. -/
structure Report where
  included : Bool
  resolved : Option String
  substituted : String

def report (body : String) (choices insertions : Value) (missing : String) :
    Except Fault Report := do
  let c : Choices ← if (condition? body).isSome then Settings.ofValue choices else .ok {}
  let i : Insertions ← Settings.ofValue insertions
  .ok { included := isIncluded body c
        resolved := resolve? body c i missing
        substituted := String.ofList (substitute body.toList i missing) }

end Body

end Bylaws
