import Bylaws.Arguments
import Bylaws.Outline

/-!
# The machine

What a program may use of the machine that it runs on. A YAML text is read, a value is shown and a
document is written by recursion, and the stack may run out where one of them is nested too deep;
the output and databases may refuse texts that have no encoding. How deep is too deep depends on the
machine, so a machine says for each text, value and document whether its stack runs out. In the same
way it says with what fault, if any, a database refuses a text.
-/

namespace Bylaws

namespace Value

mutual

/-- The number of collections that lie within one another in a value. -/
def levels : Value → Nat
  | list items => levelsIn items + 1
  | tuple items => levelsIn items + 1
  | set items => levelsIn items + 1
  | dict entries => levelsInEntries entries + 1
  | loop _ v => v.levels
  | _ => 0

def levelsIn : List Value → Nat
  | [] => 0
  | v :: rest => max v.levels (levelsIn rest)

def levelsInEntries : List (Value × Value) → Nat
  | [] => 0
  | (key, v) :: rest => max (max key.levels v.levels) (levelsInEntries rest)

end

end Value

/-- The paragraphs of a document in order, by their fields and their depths. -/
def Store.shape (s : Store) : List (Fields × Nat) := s.walk.map fun e => (e.1.fields, e.2)

/-- A machine. The plain one has a stack without end, and its output and databases take all
texts. -/
structure Machine where
  /-- The stack runs out when a YAML text is read. -/
  overflowsReading : List Char → Bool := fun _ => false
  /-- The stack runs out when a collection is shown, before a number in it is found too long. -/
  overflowsShowing : Value → Bool := fun _ => false
  /-- The stack runs out when a document of some shape is written under a view. -/
  overflowsWriting : Format → View → List (Fields × Nat) → Bool := fun _ _ _ => false
  /-- The output refuses halves of pairs. -/
  strictOutput : Bool := false
  /-- The fault of a text that a database refuses, where nothing before it in some elements is at
  fault. -/
  refusal? : Store → List Value → Option Fault := fun _ _ => none
  deriving Inhabited

namespace Machine

/-- Whether the stack runs out when a value is shown. Only collections take more of it. -/
def overflows (m : Machine) (v : Value) : Bool := 0 < v.levels && m.overflowsShowing v

/-- The plain text of a value. -/
def plain (m : Machine) (v : Value) : Except Fault String :=
  if m.overflows v then .error .stackOverflow else v.plain

/-- What becomes of a fault of an import, which may show a value. -/
def showing (m : Machine) (f : Fault) : Fault :=
  match f with
  | .nestingJump v | .unshowable v => if m.overflows v then .stackOverflow else f
  | f => f

/-- The entries of a dictionary up to the first whose value cannot be shown. -/
def shallow (m : Machine) : Value → Value
  | .dict entries => .dict (entries.takeWhile fun e => !m.overflows e.2)
  | v => v

/-- Whether all values of a dictionary can be shown. -/
def showsAll (m : Machine) : Value → Bool
  | .dict entries => entries.all fun e => !m.overflows e.2
  | _ => true

/-- Checks settings as far as their values are shown: each value is read before the next one. -/
def checkSettings (m : Machine) (α : Type) [Setting α] (v : Value) : Except Fault Unit := do
  let _ : Settings α ← Settings.ofValue (m.shallow v)
  if m.showsAll v then .ok () else .error .stackOverflow

/-- Checks that a database takes the texts of some elements. -/
def checkStored (m : Machine) (s : Store) (items : List Value) : Except Fault Unit :=
  match s.medium, m.refusal? s items with
  | .database, some f => .error f
  | _, _ => .ok ()

/-- Checks that the output takes a text. -/
def checkOutput (m : Machine) (text : String) : Except Fault Unit :=
  let before := text.toList.takeWhile fun c => !Text.isStandIn c
  match (text.toList.drop before.length).takeWhile Text.isStandIn with
  | [] => .ok ()
  | half :: more =>
    if m.strictOutput then
      .error (.unencodable half before.length (before.length + more.length))
    else .ok ()

end Machine

end Bylaws
