import Bylaws.Store.Basic

/-!
# Saved databases

The rows of a database and the count of its ids as data, so that a database can be kept in a
file.
-/

namespace Bylaws.Store

/-- A text that may be missing. -/
def savedText : Option String → Value
  | some s => .text s
  | none => .null

/-- An integer that may be missing. -/
def savedInt : Option Int → Value
  | some n => .int n
  | none => .null

def savedRow (p : Paragraph) : Value :=
  .list [.int p.id, .text p.documentId, savedInt p.parent, .int p.position, .text p.body,
    savedText p.name, savedText p.topic, savedInt p.heading, .bool p.continuation, .bool p.list]

/-- A database as a value. -/
def saved (s : Store) : Value :=
  .dict [(.text "next_id", .int s.nextId), (.text "paragraphs", .list (s.rows.map savedRow))]

def restoredText? : Value → Option (Option String)
  | .text s => some (some s)
  | .null => some none
  | _ => none

def restoredInt? : Value → Option (Option Int)
  | .int n => some (some n)
  | .null => some none
  | _ => none

def restoredRow? : Value → Option Paragraph
  | .list [.int id, .text documentId, parent, .int position, .text body, name, topic, heading,
      .bool continuation, .bool list] => do
    let parent ← restoredInt? parent
    let name ← restoredText? name
    let topic ← restoredText? topic
    let heading ← restoredInt? heading
    return { id, documentId, parent, position, body, name, topic, heading, continuation, list }
  | _ => none

/-- The database that a value describes, as a store for no document in particular. -/
def restored? : Value → Option Store
  | .dict [(.text "next_id", .int nextId), (.text "paragraphs", .list rows)] => do
    return { medium := .database, documentId := "", rows := ← rows.mapM restoredRow?, nextId }
  | _ => none

theorem restoredRow?_savedRow (p : Paragraph) : restoredRow? (savedRow p) = some p := by
  obtain ⟨⟨body, name, topic, heading, continuation, list⟩, id, documentId, parent, position⟩ := p
  cases name <;> cases topic <;> cases heading <;> cases parent <;> rfl

/-- A saved database is restored with its rows and its count of ids. -/
theorem restored?_saved (s : Store) :
    restored? s.saved =
      some { medium := .database, documentId := "", rows := s.rows, nextId := s.nextId } := by
  have h : (s.rows.map savedRow).mapM restoredRow? = some s.rows := by
    induction s.rows with
    | nil => rfl
    | cons p ps ih => simp [restoredRow?_savedRow, ih]
  simp [restored?, saved, h]

end Bylaws.Store
