import Bylaws.Value.Text

/-!
# Faults

Everything that can go wrong, by cause. `Fault.message` words a fault for the reader;
`Fault.category` says what sort of mistake it is, which is all that the command line needs to
know to tell a fault of its input files from any other.
-/

namespace Bylaws

inductive Fault where
  -- Paragraphs and outlines.
  | paragraphMissing (id : Int)
  | headingNotPositive (level : Int)
  /-- A nested list with no paragraph before it; `first` is its first element or null. -/
  | nestingJump (first : Value)
  | outlineElement (kind : String)
  /-- A collection that lies within itself and is followed without end. -/
  | endless
  | neighbourNotUnique
  -- Choices and insertions.
  | choiceNotTruth (value : Value)
  | entryMissing (key : String)
  | noEntries
  /-- A value to be shown that holds a number of too many digits. -/
  | unshowable (value : Value)
  -- Numbering.
  | romanStart (n : Int)
  | alphabetStart (n : Int)
  | numeralStyle (name : String)
  | levelStyle (name : String)
  | formatWithoutMark (format : String)
  | depthNotPositive (depth : Int)
  -- Values of the wrong kind.
  | notIterable (kind : String)
  | noMember (kind member : String)
  | notUnpackable (kind : String)
  | tooFewParts (found : Nat)
  | tooManyParts
  | notKey (kind : String)
  | fixedItems (kind : String)
  | noSize (kind : String)
  | numberMissing (n : Nat)
  | notText (kind : String)
  | notPath (kind : String)
  -- Numbers.
  | integerText (base : Nat) (value : Value)
  | emptyNumber
  | characterOutOfRange
  | characterTooLarge
  | integerTooLong (digits : Nat)
  | integerUnwritable
  | integerKind (kind : String)
  | infinityToInteger
  | notANumberToInteger
  | floatText (value : String)
  | floatOverflow
  | offsetTooLarge (seconds : Int)
  | clockPart (part range : String)
  | yearOutOfRange (year : Nat)
  | dayOutOfRange
  -- Files and data formats.
  | fileMissing (path : String)
  | isDirectory (path : String)
  | notDirectory (path : String)
  | nameTooLong (path : String)
  | nullInPath
  | notDatabase (path : String)
  | databaseMissing (path : String)
  | encoding (byte : Option UInt8) (first last : Nat) (reason : String)
  | malformedYaml
  | malformedJson
  | unwritableYaml
  | unwritableJson (kind : String)
  | jsonKey
  | jsonInteger
  | jsonDepth
  | jsonSurrogate
  | outlineFile (path kind : String)
  | settingsFile (label path : String)
  -- The machine.
  /-- A collection that is nested too deep for the stack. -/
  | stackOverflow
  /-- Halves of pairs in a text for the output, from the one at place `first` to that at `last`. -/
  | unencodable (half : Char) (first last : Nat)
  -- Storage.
  | outOfStoredRange
  /-- A number that cannot be handed to a database at all. -/
  | notTransferable
  /-- A transaction that a fault in the database has spoilt. -/
  | transactionSpoilt
  deriving Inhabited

namespace Fault

/-- The sorts of mistakes. -/
inductive Category where
  | value
  | kind
  | nesting
  | recursion
  /-- No mistake that is noticed: what goes on without end. -/
  | unending
  | paragraph
  | entry
  | member
  | index
  | overflow
  | file
  | directory
  | notDirectory
  | system
  | encoding
  | output
  | json
  | yamlOutput
  | storage
  | transfer
  | transaction
  | database
  deriving DecidableEq, Repr

def category : Fault → Category
  | paragraphMissing _ => .paragraph
  | nestingJump _ => .nesting
  | stackOverflow => .recursion
  | endless => .unending
  | entryMissing _ | noEntries | numberMissing _ => .entry
  | noMember .. => .member
  | emptyNumber => .index
  | infinityToInteger | floatOverflow | characterTooLarge => .overflow
  | fileMissing _ | databaseMissing _ => .file
  | isDirectory _ => .directory
  | notDirectory _ => .notDirectory
  | nameTooLong _ => .system
  | notDatabase _ => .database
  | encoding .. => .encoding
  | unencodable .. => .output
  | malformedJson => .json
  | unwritableYaml => .yamlOutput
  | outOfStoredRange => .storage
  | notTransferable => .transfer
  | transactionSpoilt => .transaction
  | outlineElement _ | notIterable _ | notUnpackable _ | notKey _ | fixedItems _ | noSize _
  | notText _ | notPath _ | integerKind _ | unwritableJson _ | jsonKey | jsonInteger | jsonDepth
  | jsonSurrogate => .kind
  | _ => .value

/-- A value in a message. Where a value has no text the fault is of another cause, so the
default is not seen. -/
def shown (v : Value) : String := v.shown?.getD ""

/-- The quotes of a name in a message. -/
def quote (name : String) : String := Value.shownText name

/-- The words for a number that has too many digits to be written. -/
def tooLongText : String :=
  "Exceeds the limit (4300 digits) for integer string conversion; " ++
    "use sys.set_int_max_str_digits() to increase the limit"

/-- A message that ends with a number. One with too many digits stops the message, and the words for
that stand alone. -/
def withNumber (text : String) (n : Int) : String :=
  if Decimal.isTooLong n then tooLongText else text ++ Decimal.intText n

/-- A byte as two hexadecimal digits. -/
def byteText (b : UInt8) : String := String.ofList ('0' :: 'x' :: Text.hex 2 b.toNat)

/-- The words of a fault, where they are part of the answer. -/
def message : Fault → Option String
  | paragraphMissing id => some (withNumber "" id)
  | headingNotPositive n => some (withNumber "heading level must be positive, got " n)
  | nestingJump first => some ("jump in nesting at: " ++ shown first)
  | outlineElement kind => some ("Outline elements must be strings or nested lists, got " ++ kind)
  | endless => none
  | neighbourNotUnique => some "insert() needs exactly one of before_id or after_id"
  | choiceNotTruth v =>
    some ("Choice values must be true or false, got " ++ v.kind ++ " " ++ shown v)
  | entryMissing key => some (quote key)
  | noEntries => some ""
  | unshowable _ => some tooLongText
  | romanStart n => some (withNumber "Roman numerals start at 1, got " n)
  | alphabetStart n => some (withNumber "Alphabetic numbering starts at 1, got " n)
  | numeralStyle name => some ("Unknown numbering style: " ++ quote name)
  | levelStyle name => some (quote name ++ " is not a valid NumberingStyle")
  | formatWithoutMark f => some ("Number format must contain '#', got " ++ quote f)
  | depthNotPositive d => some (withNumber "Numbering depth is 1-based, got " d)
  | notIterable kind => some ("'" ++ kind ++ "' object is not iterable")
  | noMember kind member =>
    some ("'" ++ kind ++ "' object has no attribute '" ++ member ++ "'")
  | notUnpackable kind => some ("cannot unpack non-iterable " ++ kind ++ " object")
  | tooFewParts n =>
    some ("not enough values to unpack (expected 2, got " ++ Nat.repr n ++ ")")
  | tooManyParts => some "too many values to unpack (expected 2)"
  | notKey kind => some ("unhashable type: '" ++ kind ++ "'")
  | fixedItems kind => some ("'" ++ kind ++ "' object does not support item assignment")
  | noSize kind => some ("object of type '" ++ kind ++ "' has no len()")
  | numberMissing n => some (Nat.repr n)
  | notText kind => some ("expected string or bytes-like object, got '" ++ kind ++ "'")
  | notPath kind => some ("expected str, bytes or os.PathLike object, not " ++ kind)
  | integerText base v =>
    some ("invalid literal for int() with base " ++ Nat.repr base ++ ": " ++
      String.ofList ((shown v).toList.take 200))
  | emptyNumber => some "string index out of range"
  | characterOutOfRange => some "chr() arg not in range(0x110000)"
  | characterTooLarge => some "Python int too large to convert to C int"
  | integerTooLong n =>
    some ("Exceeds the limit (4300 digits) for integer string conversion: value has " ++
      Nat.repr n ++ " digits; use sys.set_int_max_str_digits() to increase the limit")
  | integerUnwritable => some tooLongText
  | integerKind kind =>
    some ("int() argument must be a string, a bytes-like object or a real number, not '" ++
      kind ++ "'")
  | infinityToInteger => some "cannot convert float infinity to integer"
  | notANumberToInteger => some "cannot convert float NaN to integer"
  | floatText s => some ("could not convert string to float: " ++ quote s)
  | floatOverflow => some "int too large to convert to float"
  | offsetTooLarge seconds =>
    some ("offset must be a timedelta strictly between -timedelta(hours=24) and " ++
      "timedelta(hours=24), not " ++ Value.shownOffset seconds ++ ".")
  | clockPart part range => some (part ++ " must be in " ++ range)
  | yearOutOfRange year => some ("year " ++ Nat.repr year ++ " is out of range")
  | dayOutOfRange => some "day is out of range for month"
  | fileMissing path => some ("[Errno 2] No such file or directory: " ++ quote path)
  | isDirectory path => some ("[Errno 21] Is a directory: " ++ quote path)
  | notDirectory path => some ("[Errno 20] Not a directory: " ++ quote path)
  | nameTooLong path => some ("[Errno 36] File name too long: " ++ quote path)
  | nullInPath => some "embedded null byte"
  | databaseMissing path => some ("Paragraph database not found: " ++ path)
  | encoding byte first last reason =>
    some ("'utf-8' codec can't decode " ++
      (match byte with
        | some b => "byte " ++ byteText b ++ " in position " ++ Nat.repr first
        | none => "bytes in position " ++ Nat.repr first ++ "-" ++ Nat.repr last) ++
      ": " ++ reason)
  | malformedYaml => some "Invalid YAML"
  | malformedJson => none
  | unwritableYaml => none
  | unwritableJson kind => some ("Type is not JSON serializable: " ++ kind)
  | jsonKey => some "Dict key must be str"
  | jsonInteger => some "Integer exceeds 64-bit range"
  | jsonDepth => some "Recursion limit reached"
  | jsonSurrogate => some "str is not valid UTF-8: surrogates not allowed"
  | outlineFile path kind =>
    some ("Outline file " ++ path ++ " must contain a list, got " ++ kind)
  | settingsFile label path => some (label ++ " file " ++ path ++ " must contain an object")
  | stackOverflow => some "maximum recursion depth exceeded"
  | unencodable half first last =>
    some ("'utf-8' codec can't encode " ++
      (if first = last then
        "character '" ++ String.ofList (Text.codeEscape half) ++ "' in position " ++ Nat.repr first
      else "characters in position " ++ Nat.repr first ++ "-" ++ Nat.repr last) ++
      ": surrogates not allowed")
  | outOfStoredRange | notTransferable | transactionSpoilt => none
  | notDatabase _ => none

end Fault

/-- The text of an integer, or the fault that it has too many digits. -/
def Value.intText (n : Int) : Except Fault String :=
  if Decimal.isTooLong n then .error .integerUnwritable else .ok (Decimal.intText n)

/-- The plain text of a value, or the fault that a number in it has too many digits. -/
def Value.plain (v : Value) : Except Fault String :=
  match v.plain? with
  | some s => .ok s
  | none => .error .integerUnwritable

/-- A fault that shows a value, unless the value cannot be shown. -/
def Fault.showing (v : Value) (fault : Fault) : Fault :=
  if v.shown?.isSome then fault else .unshowable v

end Bylaws
