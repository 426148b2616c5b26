import Bylaws.Fault
import Bylaws.Text.Lowercase

/-!
# Choices and insertions

The settings under which a document is shown: named truth values and named texts. A setting is
addressed by any value whose canonical form is its key, so capitals and blanks at the ends
make no difference. Entries keep the order in which their keys first came.
-/

namespace Bylaws

/-- The canonical form of a text used as a key. -/
def canonical (s : String) : String := String.ofList (Text.lower (Text.trim s.toList))

/-- The canonical form of a value used as a key. A named constant stands for its value. -/
def canonicalKey (key : Value) : Except Fault String :=
  match key with
  | .constant v => v.plain.map canonical
  | v => v.plain.map canonical

/-- Named settings of one type, in the order of their first appearance. -/
structure Settings (α : Type) where
  entries : List (String × α) := []
  deriving Repr, Inhabited

/-- What may be stored as a setting: how a value becomes one, and how it is shown. -/
class Setting (α : Type) where
  /-- The name of the map, as messages give it. -/
  title : String
  ofValue : Value → Except Fault α
  toValue : α → Value

/-- Only truth values are choices; nothing else is read as one. -/
instance : Setting Bool where
  title := "ChoiceMap"
  ofValue
    | .bool b => .ok b
    | v => .error (Fault.showing v (.choiceNotTruth v))
  toValue := .bool

/-- An insertion is the plain text of a value; an absent value is the empty text. -/
instance : Setting String where
  title := "InsertionMap"
  ofValue
    | .null => .ok ""
    | v => v.plain
  toValue := .text

abbrev Choices := Settings Bool

abbrev Insertions := Settings String

namespace Settings

variable {α : Type}

/-- Replaces the value under a key, or adds the key at the end. -/
def put (key : String) (value : α) : List (String × α) → List (String × α)
  | [] => [(key, value)]
  | (k, v) :: rest => if k = key then (k, value) :: rest else (k, v) :: put key value rest

/-- The value stored under a canonical key. -/
def find? (s : Settings α) (key : String) : Option α :=
  (s.entries.find? fun e => e.1 == key).map (·.2)

/-- Stores a value under a canonical key. -/
def insert (s : Settings α) (key : String) (value : α) : Settings α :=
  ⟨put key value s.entries⟩

/-- Removes a canonical key. -/
def erase (s : Settings α) (key : String) : Settings α :=
  ⟨s.entries.filter fun e => e.1 != key⟩

/-! ## Operations by any key -/

variable [Setting α]

/-- The setting that a key addresses. -/
def get (s : Settings α) (key : Value) : Except Fault α := do
  let k ← canonicalKey key
  match s.find? k with
  | some a => .ok a
  | none => .error (.entryMissing k)

/-- Stores a value. The value is checked before the key. -/
def set (s : Settings α) (key value : Value) : Except Fault (Settings α) := do
  let a ← Setting.ofValue value
  let k ← canonicalKey key
  .ok (s.insert k a)

/-- Removes the setting that a key addresses. -/
def delete (s : Settings α) (key : Value) : Except Fault (Settings α) := do
  let k ← canonicalKey key
  match s.find? k with
  | some _ => .ok (s.erase k)
  | none => .error (.entryMissing k)

def contains (s : Settings α) (key : Value) : Except Fault Bool := do
  .ok (s.find? (← canonicalKey key)).isSome

/-- The setting under a key as a value, or `default` if there is none. -/
def getD (s : Settings α) (key default : Value) : Except Fault Value :=
  match s.get key with
  | .ok a => .ok (Setting.toValue a)
  | .error (.entryMissing _) => .ok default
  | .error e => .error e

/-- Removes and returns the setting under a key. If there is none the answer is `default`,
or a fault without one. -/
def pop (s : Settings α) (key : Value) (default : Option Value) :
    Except Fault (Value × Settings α) :=
  match s.get key, default with
  | .ok a, _ => (s.delete key).map fun t => (Setting.toValue a, t)
  | .error (.entryMissing _), some d => .ok (d, s)
  | .error e, _ => .error e

/-- Removes and returns the first entry. -/
def popFirst (s : Settings α) : Except Fault ((String × α) × Settings α) :=
  match s.entries with
  | [] => .error .noEntries
  | (k, _) :: _ => do
    let a ← s.get (.text k)
    let t ← s.delete (.text k)
    .ok ((k, a), t)

/-- The setting under a key; if there is none, `default` is stored and is the answer. -/
def setDefault (s : Settings α) (key default : Value) : Except Fault (Value × Settings α) :=
  match s.get key with
  | .ok a => .ok (Setting.toValue a, s)
  | .error (.entryMissing _) => (s.set key default).map fun t => (default, t)
  | .error e => .error e

/-- Stores pairs one after the other. On a fault the pairs before it stay stored. -/
def setAll (s : Settings α) : List (Except Fault (Value × Value)) → Except Fault Unit × Settings α
  | [] => (.ok (), s)
  | .error e :: _ => (.error e, s)
  | .ok (k, v) :: rest =>
    match s.set k v with
    | .error e => (.error e, s)
    | .ok t => t.setAll rest

/-- The two members of a pair. -/
def pair (v : Value) : Except Fault (Value × Value) :=
  match v.members? with
  | none => .error (.notUnpackable v.fullKind)
  | some [a, b] => .ok (a, b)
  | some xs => if xs.length < 2 then .error (.tooFewParts xs.length) else .error .tooManyParts

/-- Stores the entries of a dictionary, or the pairs of any other collection. -/
def update (s : Settings α) (v : Value) : Except Fault Unit × Settings α :=
  match v.opened with
  | .dict entries => s.setAll (entries.map .ok)
  | v =>
    match v.members? with
    | some members => s.setAll (members.map pair)
    | none => (.error (.notIterable v.fullKind), s)

/-- Removes the first entry until there is none, or none is found under the first key. -/
def clearWith : (fuel : Nat) → Settings α → Except Fault Unit × Settings α
  | 0, s => (.ok (), s)
  | fuel + 1, s =>
    match s.popFirst with
    | .ok (_, t) => clearWith fuel t
    | .error .noEntries | .error (.entryMissing _) => (.ok (), s)
    | .error e => (.error e, s)

/-- Removes all entries. -/
def clear (s : Settings α) : Except Fault Unit × Settings α :=
  clearWith (s.entries.length + 1) s

/-- The settings given by a value: the entries of a dictionary, or none if the value is absent
or empty. -/
def ofValue (v : Value) : Except Fault (Settings α) :=
  if v.holds then
    match v.opened with
    | .dict entries =>
      let (r, s) := (⟨[]⟩ : Settings α).setAll (entries.map .ok)
      r.map fun _ => s
    | v => .error (.noMember v.fullKind "items")
  else .ok ⟨[]⟩

/-- The entries as a dictionary. -/
def toValue (s : Settings α) : Value :=
  .dict (s.entries.map fun e => (.text e.1, Setting.toValue e.2))

/-- The settings as messages show them. -/
def shown (s : Settings α) : String :=
  Setting.title α ++ "(" ++ Fault.shown s.toValue ++ ")"

/-- The entries one by one, each value looked up under its key. -/
def items (s : Settings α) : Except Fault (List (String × α)) :=
  s.entries.mapM fun e => do
    let a ← s.get (.text e.1)
    .ok (e.1, a)

/-- Whether two maps have the same entries in any order. -/
def same [BEq α] (s t : Settings α) : Except Fault Bool := do
  let xs ← s.items
  let ys ← t.items
  .ok (xs.length == ys.length && xs.all fun e => (⟨ys⟩ : Settings α).find? e.1 == some e.2)

end Settings

/-- Whether a choice is made and true. -/
def Choices.isTrue (c : Choices) (key : String) : Bool :=
  c.find? (canonical key) == some true

/-- The text of an insertion, by its name. -/
def Insertions.text? (s : Insertions) (name : String) : Option String :=
  s.find? (canonical name)

end Bylaws
