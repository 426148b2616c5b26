import Bylaws.CommandLine
import Bylaws.Store.Saved

/-!
# The program

Reads the files that a command line names, runs it on them, and writes what comes of it: the
output to standard output, notices to standard error, and the database to its file.
-/

namespace Bylaws.Program

/-- What the bytes of a file are: a saved database, or data. -/
def fileOf (bytes : List UInt8) : File :=
  match Json.readBytes bytes with
  | .ok v =>
    match Store.restored? v with
    | some s => .database s
    | none => .data bytes
  | .error _ => .data bytes

/-- The paths that a request names. -/
def paths (r : Request) : List Path :=
  r.outline :: [r.choices, r.insertions, r.numbering, r.database].filterMap fun
    | some (.path p) => some p
    | _ => none

/-- Adds the file or directory at a place, if something is there. -/
def addPlace (folder : Folder) (place : Path) : IO Folder := do
  try
    let bytes ← IO.FS.readBinFile place.text
    return folder.put place (fileOf bytes.toList)
  catch
    | .noFileOrDirectory .. => return folder
    | _ => return folder.put place .directory

/-- Adds what lies on the way that a path takes. -/
def addPath (folder : Folder) (p : Path) : IO Folder := do
  let (folder, _) ← p.parts.foldlM (fun (folder, place) name => do
    let place := if name = ".." then place.up else place.down name
    return (← addPlace folder place, place)) (folder, p.origin)
  return folder

/-- The words of a fault. -/
def describe (f : Fault) : String := f.message.getD "the data cannot be read or stored"

def report (n : Notice) : IO Unit :=
  match n with
  | .info text => IO.eprintln ("[INFO] " ++ text)
  | .error f => IO.eprintln ("[ERROR] " ++ describe f)

/-- Writes the database of a request to its file. -/
def keep (folder : Folder) (p : Path) : IO Unit := do
  match folder.placeOf p with
  | .error _ => return
  | .ok place =>
    match folder.find? place with
    | some (.database s) =>
      match Json.write true s.saved with
      | .ok text => IO.FS.writeFile place.text text
      | .error f => IO.eprintln ("[ERROR] " ++ describe f)
    | _ => return

/-- Runs the request of a command line on the files that it names. -/
def perform (args : List String) (r : Request) : IO Outcome := do
  let folder ← (paths r).foldlM addPath {}
  let (outcome, folder) := CommandLine.run folder args
  match r.database with
  | some (.path p) => keep folder p
  | _ => return outcome
  return outcome

end Bylaws.Program

open Bylaws in
def main (args : List String) : IO UInt32 := do
  let outcome ←
    match Arguments.parse args with
    | .request r => Program.perform args r
    | _ => pure (CommandLine.run {} args).1
  outcome.notices.forM Program.report
  IO.print outcome.output
  match outcome.ending with
  | .status code => return code.toUInt32
  | .never => throw (.userError "the outline has no end")
  | .escaped f =>
    IO.eprintln (Program.describe f)
    return 1
