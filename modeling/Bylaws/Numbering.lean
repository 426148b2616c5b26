import Bylaws.Numeral
import Bylaws.Settings

/-!
# Numbering

How the ranks of a document are written at each depth, and how the ranks on the way to a
paragraph are joined into its number. A depth without a level of its own takes the style of
the nearest level above it, in the plain format.
-/

namespace Bylaws

/-- How the ranks of one depth are written. The rank takes the place of the first `#` of the
format. The style is held by name, since a level can be changed to a name of no style. -/
structure Level where
  style : String := "decimal"
  format : String := "#"
  deriving DecidableEq, Repr, Inhabited

/-- The levels by depth, in increasing order, and the rule that joins their numbers. -/
structure Numbering where
  levels : List (Int × Level) := []
  separator : String := "."
  /-- Only the last rank is the number. -/
  innermostOnly : Bool := false
  deriving DecidableEq, Repr, Inhabited

namespace Level

/-- The style that a name stands for. -/
def styleNamed (name : String) : Except Fault Style :=
  match Style.ofName? name with
  | some s => .ok s
  | none => .error (.levelStyle name)

/-- A level whose style exists and whose format has a place for the rank. -/
def make (style format : String) : Except Fault Level := do
  let _ ← styleNamed style
  if format.toList.contains '#' then .ok ⟨style, format⟩ else .error (.formatWithoutMark format)

/-- A text with `number` in place of its first `#`. -/
def fillMark (number : List Char) : List Char → List Char
  | [] => []
  | c :: rest => if c = '#' then number ++ rest else c :: fillMark number rest

/-- A rank as the level writes it. -/
def render (l : Level) (n : Int) : Except Fault String := do
  let style ← styleNamed l.style
  .ok (String.ofList (fillMark (style.write n).toList l.format.toList))

/-- Any integer as the level writes it, which may have too many digits. -/
def renderInt (l : Level) (n : Int) : Except Fault String := do
  let style ← styleNamed l.style
  let numeral ← style.text n
  .ok (String.ofList (fillMark numeral.toList l.format.toList))

end Level

namespace Numbering

/-- Depths start at one. -/
def checkDepth (depth : Int) : Except Fault Unit :=
  if depth < 1 then .error (.depthNotPositive depth) else .ok ()

/-- Stores a level in its place. -/
def put (depth : Int) (level : Level) : List (Int × Level) → List (Int × Level)
  | [] => [(depth, level)]
  | (d, l) :: rest =>
    if depth < d then (depth, level) :: (d, l) :: rest
    else if d = depth then (d, level) :: rest
    else (d, l) :: put depth level rest

/-- The level stored at a depth. -/
def level? (c : Numbering) (depth : Int) : Option Level :=
  (c.levels.find? fun e => e.1 == depth).map (·.2)

/-- Stores a level. -/
def set (c : Numbering) (depth : Int) (level : Level) : Except Fault Numbering := do
  checkDepth depth
  .ok { c with levels := put depth level c.levels }

/-- Looks a level up and makes it if it is not there. -/
def touch (c : Numbering) (depth : Int) : Except Fault (Level × Numbering) := do
  checkDepth depth
  match c.level? depth with
  | some l => .ok (l, c)
  | none => .ok ({}, { c with levels := put depth {} c.levels })

/-- Changes the style or the format of a level, unchecked. -/
def assign (c : Numbering) (depth : Int) (style format : Option String) :
    Except Fault Numbering := do
  let (l, c) ← c.touch depth
  .ok { c with levels := put depth ⟨style.getD l.style, format.getD l.format⟩ c.levels }

/-- The rule at a depth: its own level, or else the style of the nearest level above it. -/
def levelAt (c : Numbering) (depth : Int) : Except Fault Level :=
  match c.level? depth with
  | some l => .ok l
  | none =>
    match (c.levels.filter fun e => e.1 < depth).getLast? with
    | some (_, l) => Level.make l.style "#"
    | none => .ok {}

/-- A rank as it is written at a depth. -/
def number (c : Numbering) (n depth : Int) : Except Fault String := do
  (← c.levelAt depth).render n

/-- Any integer as it is written at a depth. -/
def numberInt (c : Numbering) (n depth : Int) : Except Fault String := do
  (← c.levelAt depth).renderInt n

/-- Joins the numbers on the way to a paragraph. -/
def join (c : Numbering) (parts : List String) : String :=
  match parts.getLast? with
  | none => ""
  | some last => if c.innermostOnly then last else String.intercalate c.separator parts

/-! ## As data -/

/-- The entry of a level in a dictionary. A depth of too many digits has no text. -/
def levelEntry (e : Int × Level) : Except Fault (Value × Value) := do
  let key ← Value.intText e.1
  .ok (.text key, .dict [(.text "style", .text e.2.style), (.text "format", .text e.2.format)])

/-- The numbering as a dictionary, levels in increasing depth. -/
def toValue (c : Numbering) : Except Fault Value := do
  let levels ← c.levels.mapM levelEntry
  .ok (.dict [(.text "separator", .text c.separator),
    (.text "innermost_only", .bool c.innermostOnly), (.text "levels", .dict levels)])

/-- A byte as a character of a number: a separator of files or records and a byte beyond ASCII
are neither digits nor blanks. -/
def byteChar (b : UInt8) : Char :=
  if b < 28 || (31 < b && b < 128) then Char.ofNat b.toNat else '?'

/-- The integer that a value is read as for a depth: texts are read in decimal, numbers lose
their fraction. -/
def depthOf (key : Value) : Except Fault Int :=
  match key with
  | .bool b => .ok (if b then 1 else 0)
  | .int n => .ok n
  | .float x =>
    match x with
    | .notANumber => .error .notANumberToInteger
    | .infinite _ => .error .infinityToInteger
    | .finite .. => .ok (x.truncate?.getD 0)
  | .text s =>
    match Decimal.readInt s.toList with
    | .ok n => .ok n
    | .error (.tooLong n) => .error (.integerTooLong n)
    | .error .malformed => .error (.integerText 10 key)
  | .bytes bs =>
    match Decimal.readInt (bs.map byteChar) with
    | .ok n => .ok n
    | .error (.tooLong n) => .error (.integerTooLong n)
    | .error .malformed => .error (.integerText 10 key)
  | v => .error (.integerKind v.fullKind)

/-- The entries of a dictionary, or the fault that a value has no such member. -/
def entriesOf (member : String) (v : Value) : Except Fault (List (Value × Value)) :=
  match v.opened with
  | .dict entries => .ok entries
  | v => .error (.noMember v.fullKind member)

/-- Adds the levels of a dictionary one after the other. Their members are put into text by
`plain`. -/
def addLevels (c : Numbering) (entries : List (Value × Value))
    (plain : Value → Except Fault String := Value.plain) : Except Fault Numbering :=
  match entries with
  | [] => .ok c
  | (key, value) :: rest => do
    let entries ← entriesOf "get" value
    let style ← plain ((Value.entry? entries "style").getD (.text "decimal"))
    let style := String.ofList (Text.lower style.toList)
    let _ ← Level.styleNamed style
    let format ← plain ((Value.entry? entries "format").getD (.text "#"))
    let level ← Level.make style format
    (← c.set (← depthOf key) level).addLevels rest plain

/-- The numbering given by a dictionary; what it leaves out takes its default. -/
def ofValue (v : Value) (plain : Value → Except Fault String := Value.plain) :
    Except Fault Numbering := do
  let entries ← entriesOf "get" v
  let separator ← plain ((Value.entry? entries "separator").getD (.text "."))
  let innermostOnly := ((Value.entry? entries "innermost_only").getD (.bool false)).holds
  let levels := (Value.entry? entries "levels").getD .null
  let c : Numbering := { separator, innermostOnly }
  if levels.holds then c.addLevels (← entriesOf "items" levels) plain else .ok c

end Numbering

end Bylaws
