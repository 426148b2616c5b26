import Bylaws.Decimal.Binary64
import Bylaws.Value.Calendar

/-!
# Data values

The values that outlines, settings and data files are made of. A dictionary keeps its entries
in the order in which their keys first came, with one entry for equal keys. A collection of a data
file can lie within itself; it is written with a label, and the label stands for it inside.
-/

namespace Bylaws

inductive Value where
  | null
  | bool (b : Bool)
  | int (n : Int)
  | float (x : Binary64)
  | text (s : String)
  | list (items : List Value)
  | tuple (items : List Value)
  | dict (entries : List (Value × Value))
  | set (items : List Value)
  /-- A named constant that stands for a value. -/
  | constant (value : Value)
  | date (d : Date)
  | moment (t : Moment)
  | bytes (bs : List UInt8)
  /-- A collection that lies within itself, under a label. -/
  | loop (label : Nat) (value : Value)
  /-- The collection around this place that has a label. -/
  | again (label : Nat)
  deriving Inhabited

namespace Value

/-- The name of the kind of a value, as messages give it. -/
def kind : Value → String
  | null => "NoneType"
  | bool _ => "bool"
  | int _ => "int"
  | float _ => "float"
  | text _ => "str"
  | list _ => "list"
  | tuple _ => "tuple"
  | dict _ => "dict"
  | set _ => "set"
  | constant _ => "constant"
  | date _ => "date"
  | moment _ => "datetime"
  | bytes _ => "bytes"
  | loop _ v => v.kind
  | again _ => "list"

/-- The full name of the kind of a value, as messages about what it cannot do give it. -/
def fullKind : Value → String
  | date _ => "datetime.date"
  | moment _ => "datetime.datetime"
  | v => v.kind

/-- Absent, zero and empty values do not hold. -/
def holds : Value → Bool
  | null => false
  | bool b => b
  | int n => n != 0
  | float x => !x.isZero
  | text s => !s.isEmpty
  | list items => !items.isEmpty
  | tuple items => !items.isEmpty
  | dict entries => !entries.isEmpty
  | set items => !items.isEmpty
  | bytes bs => !bs.isEmpty
  | loop _ v => v.holds
  | _ => true

/-- The number that a value stands for as a key: truth values count as zero and one. -/
def number? : Value → Option (Int ⊕ Binary64)
  | bool b => some (.inl (if b then 1 else 0))
  | int n => some (.inl n)
  | float x => some (.inr x)
  | _ => none

/-- Equality of numbers across their kinds. -/
def sameNumber : Int ⊕ Binary64 → Int ⊕ Binary64 → Bool
  | .inl a, .inl b => a == b
  | .inl a, .inr y => y.equalsInt a
  | .inr x, .inl b => x.equalsInt b
  | .inr x, .inr y => x.equals y

mutual

/-- Whether two values are one key of a dictionary. Lists, dictionaries and sets are no keys. -/
def sameKey : Value → Value → Bool
  | null, null => true
  | text s, text t => s == t
  | tuple xs, tuple ys => sameKeys xs ys
  | date a, date b => a == b
  | moment a, moment b => a.same b
  | bytes a, bytes b => a == b
  | constant a, constant b => sameKey a b
  | a, b =>
    match a.number?, b.number? with
    | some x, some y => sameNumber x y
    | _, _ => false

def sameKeys : List Value → List Value → Bool
  | [], [] => true
  | x :: xs, y :: ys => sameKey x y && sameKeys xs ys
  | _, _ => false

end

mutual

/-- The kind of the first part of a value that keeps it from being a key: lists, dictionaries
and sets do, tuples if one of their items does. -/
def keyObstacle? : Value → Option String
  | tuple xs => keyObstacleIn? xs
  | list _ => some "list"
  | dict _ => some "dict"
  | set _ => some "set"
  | loop _ v => keyObstacle? v
  | again _ => some "list"
  | _ => none

def keyObstacleIn? : List Value → Option String
  | [] => none
  | x :: xs => keyObstacle? x <|> keyObstacleIn? xs

end

/-- Adds an entry to the entries of a dictionary. A key that is there keeps its place. -/
def insertEntry (entries : List (Value × Value)) (key value : Value) : List (Value × Value) :=
  match entries with
  | [] => [(key, value)]
  | (k, v) :: rest =>
    if sameKey k key then (k, value) :: rest else (k, v) :: insertEntry rest key value

/-- The dictionary of a list of entries. -/
def ofEntries (entries : List (Value × Value)) : Value :=
  dict (entries.foldl (fun d e => insertEntry d e.1 e.2) [])

/-- The entry of a dictionary under a text key. -/
def entry? (entries : List (Value × Value)) (key : String) : Option Value :=
  (entries.find? fun e => sameKey e.1 (text key)).map (·.2)

/-- The set of a list of values. -/
def insertItem (items : List Value) (item : Value) : List Value :=
  if items.any (sameKey · item) then items else items ++ [item]

/-! ## Collections within themselves -/

mutual

/-- A value with the whole of a labelled collection around it in place of the label. -/
def expand (label : Nat) (whole : Value) : Value → Value
  | list items => list (expandItems label whole items)
  | tuple items => tuple (expandItems label whole items)
  | dict entries => dict (expandEntries label whole entries)
  | loop l v => if l = label then loop l v else loop l (expand label whole v)
  | again l => if l = label then whole else again l
  | v => v

def expandItems (label : Nat) (whole : Value) : List Value → List Value
  | [] => []
  | v :: rest => expand label whole v :: expandItems label whole rest

def expandEntries (label : Nat) (whole : Value) : List (Value × Value) → List (Value × Value)
  | [] => []
  | (k, v) :: rest => (k, expand label whole v) :: expandEntries label whole rest

end

/-- A value whose outermost collection is written without a label. -/
def opened : Value → Value
  | loop label v => expand label (loop label v) v
  | v => v

/-- The members that a value yields one by one: the items of a collection, the keys of a
dictionary, the characters of a text. -/
def members? (v : Value) : Option (List Value) :=
  match v.opened with
  | list items => some items
  | tuple items => some items
  | set items => some items
  | dict entries => some (entries.map (·.1))
  | text s => some (s.toList.map fun c => text (String.singleton c))
  | bytes bs => some (bs.map fun b => int b.toNat)
  | _ => none

end Value

end Bylaws
