import Bylaws.Json.Reader
import Bylaws.Machine
import Bylaws.Path
import Bylaws.Store.Basic
import Bylaws.Yaml.Reader

/-!
# Files

The files that a program can reach, the machine that it runs on, and what the files hold as data.
The name of a file decides whether it is read as YAML or as JSON.
-/

namespace Bylaws

/-- What a path leads to. -/
inductive File where
  | data (bytes : List UInt8)
  /-- A database, by a store on it. -/
  | database (store : Store)
  | directory
  deriving Inhabited

structure Folder where
  files : List (Path × File) := []
  machine : Machine := {}
  deriving Inhabited

namespace Folder

def find? (f : Folder) (p : Path) : Option File :=
  (f.files.find? fun e => e.1 = p).map (·.2)

/-- Puts a file in the place of what a path leads to. -/
def put (f : Folder) (p : Path) (file : File) : Folder :=
  { f with files := (p, file) :: f.files.filter fun e => e.1 ≠ p }

/-- The directories of every system. -/
def systemDirectories : List String :=
  ["bin", "dev", "etc", "home", "lib", "opt", "proc", "root", "run", "sbin", "sys", "tmp", "usr",
   "var"]

/-- Whether a path leads to a directory: the present one or one around it, one of the system, or
one that holds a file. -/
def isDirectory (f : Folder) (p : Path) : Bool :=
  (!p.rooted && p.parts.all (· = "..")) ||
    (p.rooted && (p.parts.isEmpty || systemDirectories.any fun d => p.parts = [d])) ||
    f.files.any fun e => e.1.isBelow p || (e.1 = p && e.2 matches .directory)

/-- Whether a path leads to something. -/
def contains (f : Folder) (p : Path) : Bool := f.isDirectory p || (f.find? p).isSome

/-- The greatest number of bytes that a name may have. -/
def longestName : Nat := 255

/-- The greatest number of bytes that a path may have. -/
def longestPath : Nat := 4095

/-- The place that one more name of the path `p` leads to. -/
def step (f : Folder) (p place : Path) (name : String) : Except Fault Path :=
  if !f.isDirectory place then .error (.notDirectory p.text)
  else if name = ".." then .ok place.up
  else if longestName < name.utf8ByteSize then .error (.nameTooLong p.text)
  else if f.contains (place.down name) then .ok (place.down name)
  else .error (.fileMissing p.text)

/-- The place that a path leads to, with every name looked up on the way. -/
def locate (f : Folder) (p : Path) : Except Fault Path :=
  if p.text.toList.contains '\x00' then .error .nullInPath
  else if longestPath < p.text.utf8ByteSize then .error (.nameTooLong p.text)
  else p.parts.foldlM (f.step p) p.origin

/-- The bytes of a file. Those of a database are no text, for which one byte that no data may
hold stands here. -/
def bytes (f : Folder) (p : Path) : Except Fault (List UInt8) := do
  let place ← f.locate p
  if f.isDirectory place then throw (.isDirectory p.text)
  match f.find? place with
  | some (.data bs) => return bs
  | _ => return [0]

/-- The value in a JSON file. -/
def json (f : Folder) (p : Path) : Except Fault Value := do
  Json.readBytes (← f.bytes p)

/-- The value in a YAML file, unless the stack runs out. -/
def yaml (f : Folder) (p : Path) : Except Fault Value := do
  let text := Text.unixLines (← Text.decode (← f.bytes p))
  if f.machine.overflowsReading text then throw .stackOverflow
  Yaml.read text

/-- The value in a data file. -/
def value (f : Folder) (p : Path) : Except Fault Value := do
  if p.isYaml then f.yaml p else f.json p

/-- The outline in a data file. A file that holds nothing is an empty outline. -/
def outline (f : Folder) (p : Path) : Except Fault (List Value) := do
  match (← f.value p).opened with
  | .null => return []
  | .list items => return items
  | v => throw (.outlineFile p.text v.kind)

/-- The entries of a settings file. There are none if it holds nothing. -/
def settings (f : Folder) (label : String) (p : Path) : Except Fault (List (Value × Value)) := do
  match (← f.value p).opened with
  | .null => return []
  | .dict entries => return entries
  | _ => throw (.settingsFile label p.text)

/-! ## Databases -/

/-- The name of a database that is not kept. -/
def passing : String := ":memory:"

/-- The number of bytes at the head of a database. A shorter file holds none yet. -/
def shortestHeader : Nat := 4096

/-- The place of a file that may still have to be made, in a directory that is there. -/
def placeOf (f : Folder) (p : Path) : Except Fault Path :=
  match f.locate p with
  | .error (.fileMissing _) =>
    match f.locate p.parent with
    | .ok place =>
      if f.isDirectory place then .ok (place.down p.name) else .error (.notDatabase p.text)
    | .error _ => .error (.notDatabase p.text)
  | .error (.nameTooLong path) => .error (.nameTooLong path)
  | .error _ => .error (.notDatabase p.text)
  | .ok place => if f.isDirectory place then .error (.notDatabase p.text) else .ok place

/-- A store on the database at a path, which is made if nothing is there, or too little. -/
def openStore (f : Folder) (p : Path) (documentId : String) : Except Fault Store :=
  let fresh : Store := { medium := .database, documentId }
  if p.text = passing then .ok fresh
  else do
    match f.find? (← f.placeOf p) with
    | some (.database s) => return s.forDocument documentId
    | some (.data bs) =>
      if bs.length < shortestHeader then return fresh else throw (.notDatabase p.text)
    | _ => return fresh

/-- Keeps the database that a store is on. -/
def closeStore (f : Folder) (p : Path) (s : Store) : Folder :=
  if p.text = passing then f
  else
    match f.placeOf p with
    | .ok place => f.put place (.database s)
    | .error _ => f

end Folder

end Bylaws
