import Bylaws.Path
import Bylaws.Text.Digit

/-!
# Arguments

The words of a command line as a request. A long option may be abbreviated to any beginning that
no other option has, and its value may follow an equals sign. Short options that take no value
may be joined. After two dashes alone every word is an operand.
-/

namespace Bylaws

/-- The formats that a document is written in. -/
inductive Format where
  | outline
  | html
  | yaml
  | json
  deriving DecidableEq, Repr, Inhabited

def Format.ofName? : String → Option Format
  | "outline" => some .outline
  | "html" => some .html
  | "yaml" => some .yaml
  | "json" => some .json
  | _ => none

/-- What an option names: a path, or nothing if two dashes are joined to it. -/
inductive Named where
  | path (p : Path)
  | nothing
  deriving DecidableEq, Repr

/-- What may be asked for besides the outline file. -/
structure Options where
  choices : Option Named := none
  insertions : Option Named := none
  numbering : Option Named := none
  format : Format := .outline
  /-- Numbers stand in front of the texts of an outline. -/
  withNumbers : Bool := false
  /-- No numbers stand in the items of markup. -/
  plainMarkup : Bool := false
  database : Option Named := none
  documentId : Option String := none
  verbose : Bool := false
  deriving DecidableEq, Repr, Inhabited

/-- What a program is asked to do. -/
structure Request extends Options where
  outline : Path
  deriving DecidableEq, Repr, Inhabited

namespace Arguments

inductive Switch where
  | help
  | choices
  | insertions
  | numbering
  | format
  | withNumbers
  | plainMarkup
  | database
  | documentId
  | verbose
  deriving DecidableEq, Repr

def switches : List (String × Switch) :=
  [("-h", .help), ("--help", .help), ("--choices", .choices), ("--insertions", .insertions),
   ("--numbering", .numbering), ("--format", .format), ("--with-index", .withNumbers),
   ("--no-html-index", .plainMarkup), ("--db", .database), ("--document-id", .documentId),
   ("--verbose", .verbose), ("-v", .verbose)]

def Switch.takesValue : Switch → Bool
  | .help | .withNumbers | .plainMarkup | .verbose => false
  | _ => true

/-- The switch with a name. -/
def named? (name : List Char) : Option Switch :=
  (switches.find? fun e => e.1.toList = name).map (·.2)

/-- A word of a command line. -/
inductive Word where
  | operand (text : String)
  /-- Two dashes alone. -/
  | separator
  /-- A switch, whether its name is a long one, and the value joined to it. -/
  | switch (s : Switch) (long : Bool) (joined : Option (List Char))
  /-- What looks like a switch and is none. -/
  | unknown
  deriving DecidableEq, Repr

/-- Whether a word after its dash is a number. A line feed may end it. -/
def isNumber (s : List Char) : Bool :=
  let s := if s.getLast? = some '\n' then s.dropLast else s
  match s.dropWhile Text.isDigit with
  | [] => !s.isEmpty
  | '.' :: rest => !rest.isEmpty && rest.all Text.isDigit
  | _ => false

/-- A word that names no switch in full or abbreviated. -/
def otherWord (arg : List Char) : Word :=
  if isNumber arg.tail || arg.contains ' ' then .operand (String.ofList arg) else .unknown

/-- A name and the value joined to it by an equals sign. -/
def cutValue (arg : List Char) : List Char × Option (List Char) :=
  let name := arg.takeWhile (· ≠ '=')
  (name, if arg.contains '=' then some (arg.drop (name.length + 1)) else none)

/-- The meaning of a word that begins with two dashes; there is none if it may abbreviate several
switches. -/
def longWord? (arg : List Char) : Option Word :=
  let (start, joined) := cutValue arg
  match named? arg, named? start with
  | some s, _ => some (.switch s true none)
  | none, some s => some (.switch s true joined)
  | none, none =>
    match switches.filter fun e => start.isPrefixOf e.1.toList with
    | [] => some (otherWord arg)
    | [e] => some (.switch e.2 true joined)
    | _ => none

/-- The meaning of a word that begins with one dash and has more characters. -/
def shortWord (arg : List Char) : Word :=
  match named? (arg.take 2), arg.drop 2 with
  | some s, [] => .switch s false none
  | some s, '=' :: joined => .switch s false (some joined)
  | some s, joined => .switch s false (some joined)
  | none, _ => otherWord arg

/-- The words of some arguments. -/
def words? : List String → Option (List Word)
  | [] => some []
  | "--" :: rest => some (.separator :: rest.map .operand)
  | arg :: rest => do
    let w ←
      match arg.toList with
      | '-' :: '-' :: more => longWord? ('-' :: '-' :: more)
      | '-' :: c :: more => some (shortWord ('-' :: c :: more))
      | _ => some (.operand arg)
    return w :: (← words? rest)

/-- What a command line comes to. -/
inductive Parsed where
  | request (r : Request)
  | help
  | refused
  deriving DecidableEq, Repr

/-- What has been read of a command line. -/
structure Draft where
  outline : Option Path := none
  options : Options := {}
  /-- Some word had no place. -/
  surplus : Bool := false

namespace Draft

/-- Takes from a switch the value that it has. -/
def clear (d : Draft) (s : Switch) : Draft :=
  let o := d.options
  { d with options := match s with
    | .choices => { o with choices := some .nothing }
    | .insertions => { o with insertions := some .nothing }
    | .numbering => { o with numbering := some .nothing }
    | .database => { o with database := some .nothing }
    | .documentId => { o with documentId := none }
    | .format => { o with format := .outline }
    | _ => o }

/-- Gives a switch its value. -/
def assign (d : Draft) (s : Switch) (value : String) : Option Draft :=
  let o := d.options
  let path := some (.path (Path.ofText value))
  let options : Option Options :=
    match s with
    | .choices => some { o with choices := path }
    | .insertions => some { o with insertions := path }
    | .numbering => some { o with numbering := path }
    | .database => some { o with database := path }
    | .documentId => some { o with documentId := some value }
    | .format => (Format.ofName? value).map fun format => { o with format }
    | _ => some o
  options.map fun options => { d with options }

/-- Turns a switch on. -/
def turnOn (d : Draft) : Switch → Draft
  | .withNumbers => { d with options := { d.options with withNumbers := true } }
  | .plainMarkup => { d with options := { d.options with plainMarkup := true } }
  | .verbose => { d with options := { d.options with verbose := true } }
  | _ => d

/-- The request, if the outline is named and every word had a place. -/
def finish (d : Draft) : Parsed :=
  match d.outline with
  | some outline => if d.surplus then .refused else .request { d.options with outline }
  | none => .refused

end Draft

/-- The short switches joined behind another one. -/
def joinedSwitches? (s : List Char) : Option (List Switch) := s.mapM fun c => named? ['-', c]

/-- Reads the value joined to a switch. Two dashes alone are no value. -/
def takeJoined (d : Draft) (s : Switch) (value : List Char) : Option Draft :=
  if value = ['-', '-'] then some (d.clear s) else d.assign s (String.ofList value)

/-- The switches that a switch without a value stands for, together with those joined to it. A
long name has none joined, and an equals sign needs one behind it. -/
def together? (s : Switch) (long : Bool) (joined : Option (List Char)) : Option (List Switch) :=
  match joined with
  | none => some [s]
  | some letters =>
    if long || letters.isEmpty then none else (joinedSwitches? letters).map (s :: ·)

/-- Reads some words. -/
def take (d : Draft) : List Word → Parsed
  | [] => d.finish
  | .operand text :: rest =>
    if d.outline.isSome then take { d with surplus := true } rest
    else
      let d := { d with outline := some (Path.ofText text) }
      match rest with
      | .separator :: rest => take d rest
      | rest => take d rest
  | .separator :: rest =>
    match d.outline, rest with
    | none, .operand text :: rest => take { d with outline := some (Path.ofText text) } rest
    | _, _ => .refused
  | .unknown :: rest => take { d with surplus := true } rest
  | .switch s long joined :: rest =>
    if s.takesValue then
      match joined, rest with
      | some value, rest =>
        match takeJoined d s value with
        | some d => take d rest
        | none => .refused
      | none, .operand value :: rest =>
        match d.assign s value with
        | some d => take d rest
        | none => .refused
      | none, _ => .refused
    else
      match together? s long joined with
      | none => .refused
      | some ss => if ss.contains .help then .help else take (ss.foldl Draft.turnOn d) rest

/-- What some arguments come to. -/
def parse (args : List String) : Parsed :=
  match words? args with
  | some ws => take {} ws
  | none => .refused

/-- What is written when help is asked for. -/
def help : String := String.intercalate "\n"
  ["usage: driver.py [-h] [--choices CHOICES] [--insertions INSERTIONS]",
   "                 [--numbering NUMBERING] [--format \x7boutline,html,yaml,json\x7d]",
   "                 [--with-index] [--no-html-index] [--db DB]",
   "                 [--document-id DOCUMENT_ID] [--verbose]",
   "                 outline",
   "",
   "Render a nested paragraph outline with choices and insertions",
   "",
   "positional arguments:",
   "  outline               Outline file (JSON or YAML)",
   "",
   "options:",
   "  -h, --help            show this help message and exit",
   "  --choices CHOICES     JSON/YAML object of choice name -> boolean",
   "  --insertions INSERTIONS",
   "                        JSON/YAML object of insertion name -> text",
   "  --numbering NUMBERING",
   "                        JSON/YAML numbering config (separator, innermost_only,",
   "                        levels)",
   "  --format \x7boutline,html,yaml,json\x7d",
   "                        Output format (default: outline)",
   "  --with-index          Prefix outline entries with their paragraph numbers",
   "                        (HTML always carries numbers unless --no-html-index)",
   "  --no-html-index       Omit number prefixes from HTML list items",
   "  --db DB               Optional DuckDB file to store the imported paragraphs",
   "                        in",
   "  --document-id DOCUMENT_ID",
   "                        Document id inside --db (default: outline file stem)",
   "  --verbose, -v         Verbose logging",
   ""]

end Arguments

end Bylaws
