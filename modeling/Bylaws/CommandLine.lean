import Bylaws.Arguments
import Bylaws.Document
import Bylaws.Folder
import Bylaws.Json.Writer
import Bylaws.Yaml.Writer

/-!
# The command line

One run reads an outline and settings from files, imports the outline into a document, and
writes the document in one of four formats. The document is new, or one of those in a database,
which is kept for later runs.
-/

namespace Bylaws

/-- A line of the record of a run. -/
inductive Notice where
  | info (text : String)
  | error (fault : Fault)

/-- How a run ends. -/
inductive Ending where
  | status (code : Nat)
  /-- A fault that is not reported as a mistake in the input. -/
  | escaped (fault : Fault)
  /-- The run goes on without end. -/
  | never

structure Outcome where
  ending : Ending
  output : String := ""
  notices : List Notice := []

/-- What is read from the files of a request, on some machine. -/
structure Inputs where
  outline : List Value
  setup : Document.Setup
  machine : Machine := {}

namespace CommandLine

/-- Whether a fault is reported as a mistake in the input. -/
def isReported (f : Fault) : Bool :=
  match f.category with
  | .value | .kind | .nesting | .file | .directory | .notDirectory | .system | .encoding
  | .json => true
  | _ => false

/-- A run that fails after some notices. -/
def failed (notices : List Notice) (f : Fault) : Outcome :=
  if isReported f then { ending := .status 1, notices := notices ++ [.error f] }
  else if f.category = .unending then { ending := .never, notices }
  else { ending := .escaped f, notices }

/-- A run that hands its text to the output after some notices. A fault of the output escapes
whatever it is. -/
def delivered (m : Machine) (notices : List Notice) (text : String) : Outcome :=
  match m.checkOutput text with
  | .ok () => { ending := .status 0, output := text, notices }
  | .error f => { ending := .escaped f, notices }

/-- A text that ends with a line feed. -/
def line (s : String) : String :=
  if s.toList.getLast? = some '\n' then s else s ++ "\n"

/-- Reads the settings that an option names. -/
def loadSettings (folder : Folder) (label : String) :
    Option Named → Except Fault (List (Value × Value))
  | none => .ok []
  | some .nothing => .error (.noMember "list" "suffix")
  | some (.path p) => folder.settings label p

/-- Reads the files of a request: the outline first, then the settings. -/
def load (folder : Folder) (r : Request) : Except Fault Inputs := do
  let outline ← folder.outline r.outline
  let levels ← loadSettings folder "Numbering" r.numbering
  let choices ← loadSettings folder "Choices" r.choices
  let insertions ← loadSettings folder "Insertions" r.insertions
  let numbering ←
    if levels.isEmpty then pure {} else Numbering.ofValue (.dict levels) folder.machine.plain
  let setup : Document.Setup :=
    { choices := .dict choices, insertions := .dict insertions, numbering }
  return { outline, setup, machine := folder.machine }

/-- The view that a document is written under. -/
def viewOf (r : Request) (d : Document) : View :=
  d.view (if r.format = .html then !r.plainMarkup else r.withNumbers)

/-- A document in the format of a request, unless the stack runs out. -/
def render (m : Machine) (r : Request) (d : Document) : Except Fault String := do
  if m.overflowsWriting r.format (viewOf r d) d.store.shape then throw .stackOverflow
  match r.format with
  | .outline => Json.write true (.list (← d.outline .display r.withNumbers))
  | .html => d.html (!r.plainMarkup)
  | .yaml => Yaml.write (← d.sourceOutline)
  | .json => Json.write true (← d.sourceOutline)

/-- What is said when an outline is imported. -/
def importNotice (r : Request) (d : Document) : Notice :=
  .info ("Imported " ++ Nat.repr d.store.documentOrder.length ++ " paragraphs from " ++
    r.outline.text ++
    match r.database with
    | some (.path p) => " into " ++ p.text
    | _ => "")

/-- Checks that the settings of a request can be shown, the choices before the insertions, and then
that a database takes the texts of its outline. One that does not keeps none of them. -/
def checkInputs (inputs : Inputs) (store : Store) : Except Fault Unit := do
  inputs.machine.checkSettings Bool inputs.setup.choices
  inputs.machine.checkSettings String inputs.setup.insertions
  inputs.machine.checkStored store inputs.outline

/-- The document of a store with an outline added, and the store afterwards. -/
def document (inputs : Inputs) (store : Store) : Except Fault Document × Store :=
  match checkInputs inputs store with
  | .error f => (.error f, store)
  | .ok () =>
    let (r, store) := Document.ofOutline store inputs.setup (.list inputs.outline)
    (r.mapError inputs.machine.showing, store)

/-- Adds an outline to the document of a store and writes the document. -/
def perform (r : Request) (inputs : Inputs) (store : Store) : Outcome × Store :=
  match document inputs store with
  | (.error f, store) => (failed [] f, store)
  | (.ok d, store) =>
    let notice := importNotice r d
    match render inputs.machine r d with
    | .ok text => (delivered inputs.machine [notice] (line text), store)
    | .error f => (failed [notice] f, store)

/-- The id of the document of a request: the given one, or the name of the outline file without
its suffix. -/
def documentId (r : Request) : String :=
  match r.documentId with
  | some id => if id.isEmpty then r.outline.stem else id
  | none => r.outline.stem

/-- Does what a request asks for. -/
def answer (folder : Folder) (r : Request) : Outcome × Folder :=
  match load folder r with
  | .error f => (failed [] f, folder)
  | .ok inputs =>
    match r.database with
    | none => ((perform r inputs { documentId := documentId r }).1, folder)
    | some .nothing => (failed [] (.notPath "list"), folder)
    | some (.path p) =>
      match folder.openStore p (documentId r) with
      | .error f => (failed [] f, folder)
      | .ok store =>
        let (outcome, store) := perform r inputs store
        (outcome, folder.closeStore p store)

/-- Runs a command line on some files. -/
def run (folder : Folder) (args : List String) : Outcome × Folder :=
  match Arguments.parse args with
  | .request r => answer folder r
  | .help => ({ ending := .status 0, output := Arguments.help }, folder)
  | .refused => ({ ending := .status 2 }, folder)

/-- Runs command lines one after the other. -/
def runAll (folder : Folder) : List (List String) → List Outcome
  | [] => []
  | args :: rest =>
    let (outcome, folder) := run folder args
    outcome :: runAll folder rest

end CommandLine

end Bylaws
