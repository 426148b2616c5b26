import Bylaws.CommandLine
import Bylaws.Proofs.Folder
import Bylaws.Proofs.Forest.Concatenation
import Bylaws.Proofs.Machine
import Bylaws.Proofs.Session.Documents
import Mathlib.Data.List.Chain
import Mathlib.Data.List.Induction

/-!
# Runs on one database

Command lines that are run one after the other on one database add to the documents in it. What a
run writes is what it would write without the database for an outline with the elements of all
outlines that have been imported into its document so far, its own included; a run that fails
before its import is completed adds nothing (`runs_accumulate`).

The database holds each document like one import of all these elements into memory would, up to
the names of paragraphs (`Accumulated`). A run on another document draws ids that the import in
memory does not draw; the map of ids is moved on when the next outline comes in.
-/

namespace Bylaws

open Forest

namespace Store

variable {s t file file' : Store} {items items' : List Value} {d : String}

/-! ## What a document has come to -/

/-- A document in a file is what an import of some elements makes in memory. -/
def Accumulated (items : List Value) (d : String) (file : Store) : Prop :=
  ∃ ids m ρ, importOutline (.list items) none { documentId := d } = (.ok ids, m) ∧ StrictMono ρ ∧
    Resembles True ρ m (file.forDocument d) ∧ ρ m.nextId ≤ file.nextId

theorem accumulated_nil (d : String) : Accumulated [] d emptyFile := by
  refine ⟨[], { documentId := d }, id, rfl, strictMono_id, ⟨rfl, rfl, ?_⟩, Int.le_refl _⟩
  exact .inr ⟨trivial, rfl, rfl, rfl⟩

/-- What an import into an empty document in memory comes to. -/
theorem imported_fresh {ids : List Int} {m : Store}
    (h : importOutline (.list items) none { documentId := d } = (.ok ids, m)) :
    m.spoilt = false ∧ ∃ f, m.Shows f := by
  have hfresh := fresh_empty .memory d
  obtain ⟨-, -, -, hs, g, hg⟩ := importOutline_list_eq_ok (C := .top) rfl hfresh.shows h
  exact ⟨hs, g, hg⟩

/-- A document stays what it is where its rows stay and ids are only drawn. -/
theorem Accumulated.congr (h : Accumulated items d file)
    (hp : (file'.forDocument d).paragraphs = (file.forDocument d).paragraphs)
    (hm : file'.medium = file.medium) (hn : file.nextId ≤ file'.nextId) :
    Accumulated items d file' := by
  obtain ⟨ids, m, ρ, hrun, hρ, hresembles, hnext⟩ := h
  refine ⟨ids, m, ρ, hrun, hρ, ⟨hp.trans hresembles.paragraphs_eq, hresembles.documentId_eq, ?_⟩,
    hnext.trans hn⟩
  refine hresembles.medium.imp ?_ ?_
  · rintro ⟨hmedium, hi, hs⟩
    exact ⟨hm.trans hmedium, hi, hs⟩
  · rintro ⟨hl, hmem, hdb, hs⟩
    exact ⟨hl, hmem, hm.trans hdb, hs⟩

/-- An import into the document adds its elements. -/
theorem Accumulated.import (h : Accumulated items d file) {ids : List Int}
    (hrun : importOutline (.list items') none (file.forDocument d) = (.ok ids, file'))
    (hopen : file'.forDocument d = file') : Accumulated (items ++ items') d file' := by
  obtain ⟨ids₀, m, ρ, hm, hρ, hresembles, hnext⟩ := h
  obtain ⟨hs, f, hf⟩ := imported_fresh hm
  -- From here on both draw corresponding ids.
  have hσ : StrictMono (shiftFrom ρ m.nextId file.nextId) := strictMono_shiftFrom hρ hnext
  have hmirrors : Mirrors True (shiftFrom ρ m.nextId file.nextId) m (file.forDocument d) :=
    ⟨hresembles.congr hf fun i hi => (shiftFrom_of_lt hi).symm, shiftFrom_add _ _⟩
  have hplaced : Placed [] (shiftFrom ρ m.nextId file.nextId) m (file.forDocument d) none none :=
    .top
  have htwin := importOutline_twin hσ hmirrors hs hf hplaced (.list items')
  rw [hrun] at htwin
  rcases hm' : importOutline (.list items') none m with ⟨r, m'⟩
  rw [hm'] at htwin
  cases htwin with
  | ok _ hafter =>
    have hall := importOutline_append rfl (fresh_empty .memory d).shows hm hm'
    have hdrawn := hafter.next 0
    simp only [Nat.cast_zero, add_zero] at hdrawn
    exact ⟨_, m', _, hall, hσ, hopen ▸ hafter.toResembles, hdrawn.le⟩

/-! ## Files -/

/-- A file in which every document is what an import of some elements makes in memory. -/
structure Gathers (file : Store) (gathered : String → List Value) : Prop where
  isFile : file.IsFile
  accumulated : ∀ d, Accumulated (gathered d) d file

theorem gathers_emptyFile : emptyFile.Gathers fun _ => [] := ⟨isFile_emptyFile, accumulated_nil⟩

variable {gathered gathered' : String → List Value}

/-- An import into one document, which is a visit of the file. -/
def importVisit (d : String) (items : List Value) : Visit :=
  ⟨d, .importOutline (.list items) none⟩

theorem snd_visit_import (file : Store) (d : String) (items : List Value) :
    (file.visit (importVisit d items)).2 =
      (importOutline (.list items) none (file.forDocument d)).2 := snd_perform _

/-- A visit leaves every other document what it is. -/
theorem Accumulated.visit_other (h : Accumulated items d file) {v : Visit}
    (hv : v.documentId ≠ d) : Accumulated items d (file.visit v).2 :=
  h.congr (paragraphs_visit hv) (spares_visit file v).medium_eq (spares_visit file v).nextId_le

/-- An import that is completed adds its elements to one document. -/
theorem Gathers.import (h : file.Gathers gathered) {ids : List Int}
    (hrun : importOutline (.list items) none (file.forDocument d) = (.ok ids, file'))
    (hd : gathered' d = gathered d ++ items) (hother : ∀ d' ≠ d, gathered' d' = gathered d') :
    file'.Gathers gathered' := by
  obtain rfl : (file.visit (importVisit d items)).2 = file' := by
    rw [snd_visit_import, hrun]
  refine ⟨h.isFile.visit _, fun d' => ?_⟩
  by_cases hd' : d' = d
  · subst hd'
    rw [hd]
    exact (h.accumulated d').import hrun (forDocument_visit file (importVisit d' items))
  · rw [hother d' hd']
    exact (h.accumulated d').visit_other (Ne.symm hd')

/-- An import that fails adds nothing to any document. -/
theorem Gathers.import_error (h : file.Gathers gathered) {e : Fault}
    (hrun : importOutline (.list items) none (file.forDocument d) = (.error e, file')) :
    file'.Gathers gathered := by
  obtain rfl : (file.visit (importVisit d items)).2 = file' := by
    rw [snd_visit_import, hrun]
  refine ⟨h.isFile.visit _, fun d' => ?_⟩
  by_cases hd' : d' = d
  · subst hd'
    have hspares := spares_visit file (importVisit d' items)
    have hrows : (file.visit (importVisit d' items)).2.rows = file.rows := by
      rw [snd_visit_import]
      refine run_undone (s := file.forDocument d') (.inr rfl) (.importOutline (.list items) none) ?_
      show isFault (importOutline (.list items) none (file.forDocument d')).1 = true
      rw [hrun]
      rfl
    refine (h.accumulated d').congr ?_ hspares.medium_eq hspares.nextId_le
    show (file.visit _).2.rows.filter _ = _
    rw [hrows]
    rfl
  · exact (h.accumulated d').visit_other (Ne.symm hd')

end Store

namespace CommandLine

/-! ## One run -/

/-- A run on a database that is kept in a file. -/
structure Run where
  folder : Folder
  request : Request
  database : Path
  database_eq : request.database = some (.path database)
  kept : database.text ≠ Folder.passing

namespace Run

def outcome (x : Run) : Outcome := (answer x.folder x.request).1

/-- The files after a run. -/
def after (x : Run) : Folder := (answer x.folder x.request).2

def documentId (x : Run) : String := CommandLine.documentId x.request

/-- What a run adds to its document: the elements of its outline if the import is completed, or else
nothing. -/
def imported (x : Run) : List Value :=
  match load x.folder x.request, x.folder.openStore x.database x.documentId with
  | .ok inputs, .ok store =>
    match document inputs store with
    | (.ok _, _) => inputs.outline
    | (.error _, _) => []
  | _, _ => []

end Run

/-- The elements that some runs have added to a document. -/
def gathered (documentId : String) (runs : List Run) : List Value :=
  (runs.filter (·.documentId = documentId)).flatMap Run.imported

/-- Runs on one database, which nothing has been kept in at first. Each run finds it as the run
before has left it; other files may change in between. -/
structure OnOneDatabase (runs : List Run) : Prop where
  new : ∀ x ∈ runs.head?, ∀ d s, x.folder.openStore x.database d = .ok s →
    s = Store.emptyFile.forDocument d
  found : runs.IsChain fun x y =>
    ∀ d, y.folder.openStore y.database d = x.after.openStore x.database d

/-! ## The document of a run -/

/-- Settings that can be shown are those of a document. -/
theorem exists_new {inputs : Inputs} {t : Store} (h : checkInputs inputs t = .ok ()) (s : Store) :
    ∃ d, Document.new s inputs.setup = .ok d := by
  obtain ⟨_, hchoices, h⟩ := Fault.bind_eq_ok h
  obtain ⟨_, hinsertions, -⟩ := Fault.bind_eq_ok h
  obtain ⟨-, choices, hc⟩ := Machine.checkSettings_eq_ok_iff.1 hchoices
  obtain ⟨-, insertions, hi⟩ := Machine.checkSettings_eq_ok_iff.1 hinsertions
  unfold Document.new
  rw [hc, hi]
  exact ⟨_, rfl⟩

/-- In memory nothing has to be stored. -/
theorem checkInputs_memory {inputs : Inputs} {s t : Store} (ht : t.medium = .memory)
    (h : checkInputs inputs s = .ok ()) (items : List Value) :
    checkInputs { inputs with outline := items } t = .ok () := by
  obtain ⟨_, hchoices, h⟩ := Fault.bind_eq_ok h
  obtain ⟨_, hinsertions, -⟩ := Fault.bind_eq_ok h
  unfold checkInputs
  rw [hchoices, hinsertions]
  exact Machine.checkStored_memory ht

/-- How the document of a run is made: its inputs are refused, or the import fails, or it is
completed. -/
inductive Opened (inputs : Inputs) (s : Store) : Except Fault Document × Store → Prop where
  | refused {e : Fault} : checkInputs inputs s = .error e → Opened inputs s (.error e, s)
  | failed {e : Fault} {t : Store} :
      Store.importOutline (.list inputs.outline) none s = (.error e, t) →
      Opened inputs s (.error (inputs.machine.showing e), t)
  | done {d : Document} {ids : List Int} {t : Store} : checkInputs inputs s = .ok () →
      Document.new s inputs.setup = .ok d →
      Store.importOutline (.list inputs.outline) none s = (.ok ids, t) →
      Opened inputs s (.ok { d with store := t }, t)

theorem opened (inputs : Inputs) (s : Store) : Opened inputs s (document inputs s) := by
  unfold document
  cases hchecked : checkInputs inputs s with
  | error e => exact .refused hchecked
  | ok =>
    obtain ⟨d, hd⟩ := exists_new hchecked s
    have hmade := Document.made s inputs.setup inputs.outline
    dsimp only
    generalize Document.ofOutline s inputs.setup (.list inputs.outline) = made at hmade ⊢
    cases hmade with
    | refused h => exact nomatch h.symm.trans hd
    | failed _ hrun => exact .failed hrun
    | done hnew hrun => exact .done hchecked hnew hrun

theorem document_ok {inputs : Inputs} {s t u : Store} {ids : List Int} {d : Document}
    (hchecked : checkInputs inputs t = .ok ()) (hd : Document.new s inputs.setup = .ok d)
    (hrun : Store.importOutline (.list inputs.outline) none t = (.ok ids, u)) :
    document inputs t = (.ok { d with store := u }, u) := by
  unfold document
  rw [hchecked]
  dsimp only
  rw [Document.ofOutline_ok hd hrun]
  rfl

theorem snd_perform (r : Request) (inputs : Inputs) (store : Store) :
    (perform r inputs store).2 = (document inputs store).2 := by
  unfold perform
  rcases document inputs store with ⟨e | d, t⟩
  · rfl
  · dsimp only
    cases render inputs.machine r d <;> rfl

/-! ## The database after a run -/

theorem gathered_concat (documentId : String) (runs : List Run) (x : Run) :
    gathered documentId (runs ++ [x]) =
      gathered documentId runs ++ if x.documentId = documentId then x.imported else [] := by
  unfold gathered
  rw [List.filter_append, List.flatMap_append]
  by_cases h : x.documentId = documentId <;> simp [h]

theorem gathered_concat_nil {x : Run} (h : x.imported = []) (runs : List Run) :
    (fun d => gathered d (runs ++ [x])) = fun d => gathered d runs := by
  funext d
  rw [gathered_concat, h, ite_self, List.append_nil]

/-- A store on a database is for the document that it is opened for, in one file. -/
def OpensOn (folder : Folder) (database : Path) (file : Store) : Prop :=
  ∀ d s, folder.openStore database d = .ok s → s = file.forDocument d

namespace Run

variable {x : Run} {inputs : Inputs} {store : Store}

theorem answer_eq (hload : load x.folder x.request = .ok inputs)
    (hstore : x.folder.openStore x.database x.documentId = .ok store) :
    answer x.folder x.request = ((perform x.request inputs store).1,
      x.folder.closeStore x.database (perform x.request inputs store).2) := by
  unfold answer
  rw [hload, x.database_eq]
  dsimp only
  rw [show x.folder.openStore x.database (CommandLine.documentId x.request) = _ from hstore]

theorem imported_eq (hload : load x.folder x.request = .ok inputs)
    (hstore : x.folder.openStore x.database x.documentId = .ok store) :
    x.imported = match document inputs store with
      | (.ok _, _) => inputs.outline
      | (.error _, _) => [] := by
  unfold imported
  rw [hload, hstore]

/-- A run in which nothing is opened leaves all files. -/
theorem unopened (h : ∀ inputs store, load x.folder x.request = .ok inputs →
      x.folder.openStore x.database x.documentId ≠ .ok store) :
    x.after = x.folder ∧ x.imported = [] := by
  unfold after imported answer
  cases hload : load x.folder x.request with
  | error e => exact ⟨rfl, rfl⟩
  | ok inputs =>
    rw [x.database_eq]
    dsimp only
    cases hstore : x.folder.openStore x.database x.documentId with
    | error e =>
      rw [show x.folder.openStore x.database (CommandLine.documentId x.request) = _ from hstore]
      exact ⟨rfl, rfl⟩
    | ok store => exact absurd hstore (h inputs store hload)

end Run

/-- What one run makes of the database. -/
theorem gathers_run {file : Store} {runs : List Run} {x : Run}
    (h : file.Gathers fun d => gathered d runs) (hopen : OpensOn x.folder x.database file) :
    ∃ file' : Store, file'.Gathers (fun d => gathered d (runs ++ [x])) ∧
      OpensOn x.after x.database file' := by
  by_cases hopened : ∃ inputs store, load x.folder x.request = .ok inputs ∧
      x.folder.openStore x.database x.documentId = .ok store
  · obtain ⟨inputs, store, hload, hstore⟩ := hopened
    obtain rfl := hopen _ _ hstore
    have himported := Run.imported_eq hload hstore
    have hafter : OpensOn x.after x.database
        (document inputs (file.forDocument x.documentId)).2 := by
      intro d s hs
      unfold Run.after at hs
      rw [Run.answer_eq hload hstore, snd_perform] at hs
      exact Except.ok.inj (hs.symm.trans (Folder.openStore_closeStore x.kept hstore))
    have hopened := opened inputs (file.forDocument x.documentId)
    generalize document inputs _ = made at hopened hafter himported
    cases hopened with
    | refused _ =>
      refine ⟨file, ?_, hafter⟩
      rwa [gathered_concat_nil himported]
    | failed hrun =>
      refine ⟨_, ?_, hafter⟩
      rw [gathered_concat_nil himported]
      exact h.import_error hrun
    | done _ _ hrun =>
      refine ⟨_, h.import hrun ?_ ?_, hafter⟩
      · rw [gathered_concat, if_pos rfl, himported]
      · intro d hd
        rw [gathered_concat, if_neg (Ne.symm hd), List.append_nil]
  · obtain ⟨hafter, himported⟩ := Run.unopened (x := x) fun inputs store hload hstore =>
      hopened ⟨inputs, store, hload, hstore⟩
    rw [gathered_concat_nil himported, hafter]
    exact ⟨file, h, hopen⟩

/-- The database that a run finds keeps what all runs before have added. -/
theorem exists_gathers {runs : List Run} {x : Run} (h : OnOneDatabase (runs ++ [x])) :
    ∃ file : Store, file.Gathers (fun d => gathered d runs) ∧ OpensOn x.folder x.database file := by
  induction runs using List.reverseRecOn generalizing x with
  | nil => exact ⟨Store.emptyFile, Store.gathers_emptyFile, h.new x rfl⟩
  | append_singleton runs y ih =>
    have hbefore : OnOneDatabase (runs ++ [y]) := by
      refine ⟨fun z hz => h.new z ?_, h.found.left_of_append⟩
      rw [List.head?_append, Option.mem_def.1 hz]
      rfl
    have hfound : ∀ d, x.folder.openStore x.database d = y.after.openStore y.database d :=
      (List.isChain_append.1 h.found).2.2 y (by simp) x rfl
    obtain ⟨file, hgathers, hopen⟩ := ih hbefore
    obtain ⟨file', hgathers', hopen'⟩ := gathers_run hgathers hopen
    exact ⟨file', hgathers', fun d s hs => hopen' d s (hfound d ▸ hs)⟩

/-! ## What a run writes -/

/-- Ids have no part in the shape of a document. -/
theorem shape_rename {s t : Store} {f : Forest} {ρ : Int → Int} (hs : s.Shows f)
    (ht : t.Shows (f.rename ρ)) : t.shape = s.shape := by
  have hlines : ∀ (g : Forest) (depth : Nat),
      ((g.rename ρ).lines depth).map (fun l => (l.fields, l.depth)) =
        (g.lines depth).map fun l => (l.fields, l.depth) := by
    intro g
    induction g with
    | nil => exact fun _ => rfl
    | cons id fields below rest ih₁ ih₂ =>
      intro depth
      simp only [rename, lines, List.map_cons, List.map_append, ih₁, ih₂]
  rw [ht.shape_eq, hs.shape_eq, hlines]

/-- A document that is the same under other ids is written alike. -/
theorem render_rename (m : Machine) (r : Request) {d : Document} {s t : Store} {f : Forest}
    {ρ : Int → Int} (hs : s.Shows f) (ht : t.Shows (f.rename ρ)) :
    render m r { d with store := t } = render m r { d with store := s } := by
  have houtline : ∀ kind withNumbers, Document.outline { d with store := t } kind withNumbers =
      Document.outline { d with store := s } kind withNumbers := fun kind _ =>
    Store.outline_rename hs ht _ kind
  have hhtml : ∀ withNumbers, Document.html { d with store := t } withNumbers =
      Document.html { d with store := s } withNumbers := fun _ => Store.html_rename hs ht _
  unfold render Document.sourceOutline
  simp only [houtline, hhtml, shape_rename hs ht]
  rfl

theorem ending_failed (notices : List Notice) (f : Fault) :
    (failed notices f).ending ≠ .status 0 := by
  unfold failed
  split
  · simp
  · split <;> simp

theorem delivered_eq_ok {m : Machine} {text : String} (h : m.checkOutput text = .ok ())
    (notices : List Notice) :
    delivered m notices text = { ending := .status 0, output := text, notices } := by
  unfold delivered
  rw [h]

/-- A run succeeds and writes a text. -/
def Writes (o : Outcome) (text : String) : Prop := o.ending = .status 0 ∧ o.output = text

section Perform

variable {r : Request} {inputs : Inputs} {store t : Store} {d : Document} {text : String}
  {e : Fault}

theorem perform_unmade (h : document inputs store = (.error e, t)) :
    (perform r inputs store).1 = failed [] e := by
  unfold perform
  rw [h]

theorem perform_unwritten (h : document inputs store = (.ok d, t))
    (hrender : render inputs.machine r d = .error e) :
    (perform r inputs store).1 = failed [importNotice r d] e := by
  unfold perform
  rw [h]
  dsimp only
  rw [hrender]

theorem perform_written (h : document inputs store = (.ok d, t))
    (hrender : render inputs.machine r d = .ok text) :
    (perform r inputs store).1 = delivered inputs.machine [importNotice r d] (line text) := by
  unfold perform
  rw [h]
  dsimp only
  rw [hrender]

theorem perform_writes (h : document inputs store = (.ok d, t))
    (hrender : render inputs.machine r d = .ok text)
    (hout : inputs.machine.checkOutput (line text) = .ok ()) :
    Writes (perform r inputs store).1 (line text) := by
  rw [perform_written h hrender, delivered_eq_ok hout]
  exact ⟨rfl, rfl⟩

/-- What it takes for a document to be written. -/
theorem perform_eq_status (h : (perform r inputs store).1.ending = .status 0) :
    ∃ d t text, document inputs store = (.ok d, t) ∧ render inputs.machine r d = .ok text ∧
      inputs.machine.checkOutput (line text) = .ok () ∧
      Writes (perform r inputs store).1 (line text) := by
  rcases hd : document inputs store with ⟨e | d, t⟩
  · rw [perform_unmade hd] at h
    exact absurd h (ending_failed _ e)
  · cases hrender : render inputs.machine r d with
    | error e =>
      rw [perform_unwritten hd hrender] at h
      exact absurd h (ending_failed _ e)
    | ok text =>
      cases hout : inputs.machine.checkOutput (line text) with
      | ok => exact ⟨d, t, text, rfl, hrender, hout, perform_writes hd hrender hout⟩
      | error e =>
        rw [perform_written hd hrender, delivered, hout] at h
        exact nomatch h

end Perform

theorem Run.eq_status {x : Run} (h : x.outcome.ending = .status 0) :
    ∃ inputs store, load x.folder x.request = .ok inputs ∧
      x.folder.openStore x.database x.documentId = .ok store ∧
      x.outcome = (perform x.request inputs store).1 := by
  cases hload : load x.folder x.request with
  | error e =>
    unfold Run.outcome answer at h
    rw [hload] at h
    exact absurd h (ending_failed [] e)
  | ok inputs =>
    cases hstore : x.folder.openStore x.database x.documentId with
    | error e =>
      unfold Run.outcome answer at h
      rw [hload, x.database_eq] at h
      dsimp only at h
      rw [show x.folder.openStore x.database (CommandLine.documentId x.request) = _ from hstore]
        at h
      exact absurd h (ending_failed [] e)
    | ok store => exact ⟨inputs, store, rfl, rfl, congrArg Prod.fst (Run.answer_eq hload hstore)⟩

/-- A document in memory that is made of all elements is written as the one in the database. -/
theorem writes_alone {file t : Store} {inputs : Inputs} {items : List Value} {r : Request}
    {d : String} {doc : Document} {text : String} {ids : List Int}
    (hfile : file.IsFile) (h : Store.Accumulated items d file)
    (hchecked : checkInputs inputs (file.forDocument d) = .ok ())
    (hdoc : Document.new (file.forDocument d) inputs.setup = .ok doc)
    (hrun : Store.importOutline (.list inputs.outline) none (file.forDocument d) = (.ok ids, t))
    (htext : render inputs.machine r { doc with store := t } = .ok text)
    (hout : inputs.machine.checkOutput (line text) = .ok ()) :
    Writes (perform r { inputs with outline := items ++ inputs.outline } { documentId := d }).1
      (line text) := by
  have ht : (file.visit (Store.importVisit d inputs.outline)).2 = t := by
    rw [Store.snd_visit_import, hrun]
  have hopen : t.forDocument d = t :=
    ht ▸ Store.forDocument_visit file (Store.importVisit d inputs.outline)
  obtain ⟨ids', m, ρ, hm, hρ, hresembles, -⟩ := h.import hrun hopen
  obtain ⟨-, f, hf⟩ := Store.imported_fresh hm
  obtain ⟨f', hf'⟩ := (ht ▸ hfile.visit (Store.importVisit d inputs.outline) : t.IsFile).shows d
  have hshows := hresembles.shows hρ hf hf'
  rw [hopen] at hshows
  refine perform_writes (document_ok (checkInputs_memory rfl hchecked _) hdoc hm) ?_ hout
  rw [← htext]
  exact (render_rename _ r hf hshows).symm

/-- What a run on a database writes that succeeds is what the same run without the database would
write for an outline with all elements that have been imported into its document so far. Importing
one outline after another is the same as importing them in a row. -/
theorem runs_accumulate :
    (∀ (runs : List Run) (x : Run), OnOneDatabase (runs ++ [x]) →
      x.outcome.ending = .status 0 →
        ∃ inputs, load x.folder x.request = .ok inputs ∧
          let alone : Request := { x.request with database := none }
          let whole : Inputs :=
            { inputs with outline := gathered x.documentId (runs ++ [x]) }
          Writes (perform alone whole { documentId := x.documentId }).1 x.outcome.output ∧
            ∀ folder, load folder alone = .ok whole →
              Writes (answer folder alone).1 x.outcome.output) ∧
      (∀ s : Store, s.Reachable → ∀ (parent : Option Int) (a b : List Value)
        (ids ids' : List Int) (t u : Store),
        Store.importOutline (.list a) parent s = (.ok ids, t) →
          Store.importOutline (.list b) parent t = (.ok ids', u) →
            Store.importOutline (.list (a ++ b)) parent s = (.ok (ids ++ ids'), u)) ∧
      ∀ s : Store, s.Reachable → s.medium = .memory → ∀ a b : List Value,
        Store.Importable a → Store.Importable b →
          ∃ ids ids' t u, Store.importOutline (.list a) none s = (.ok ids, t) ∧
            Store.importOutline (.list b) none t = (.ok ids', u) ∧
            Store.importOutline (.list (a ++ b)) none s = (.ok (ids ++ ids'), u) := by
  refine ⟨fun runs x h hx => ?_, fun s hs parent a b ids ids' t u ha hb => ?_,
    fun s hs hm a b ha hb => ?_⟩
  · obtain ⟨inputs, store, hload, hstore, houtcome⟩ := Run.eq_status hx
    obtain ⟨file, hgathers, hopen⟩ := exists_gathers h
    obtain rfl := hopen _ _ hstore
    rw [houtcome] at hx
    obtain ⟨d, t, text, hd, htext, hout, hwrites⟩ := perform_eq_status hx
    have himported := Run.imported_eq hload hstore
    rw [hd] at himported
    have hopened := opened inputs (file.forDocument x.documentId)
    rw [hd] at hopened
    refine ⟨inputs, hload, ?_⟩
    rw [gathered_concat, if_pos rfl, himported, houtcome, hwrites.2]
    cases hopened with
    | done hchecked hdoc hrun =>
      have halone := writes_alone (r := { x.request with database := none }) hgathers.isFile
        (hgathers.accumulated x.documentId) hchecked hdoc hrun htext hout
      refine ⟨halone, fun folder hfolder => ?_⟩
      unfold answer
      rw [hfolder]
      exact halone
  · obtain ⟨f, hf⟩ := hs.exists_shows
    exact Store.importOutline_append hs.spoilt_eq hf ha hb
  · obtain ⟨f, hf⟩ := hs.exists_shows
    exact ha.append hb hm hs.spoilt_eq (C := .top) hf

/-! ## An instance -/

/-- Two outline files of one text each. -/
def twoOutlines : Folder where
  files := [(Path.ofText "a.json", .data [91, 34, 120, 34, 93]),
    (Path.ofText "b.json", .data [91, 34, 121, 34, 93])]

/-- Both outlines go into one document. -/
def intoOne (name : String) : Request where
  outline := Path.ofText name
  database := some (.path (Path.ofText "d.db"))
  documentId := some "d"

def firstRun : Run where
  folder := twoOutlines
  request := intoOne "a.json"
  database := Path.ofText "d.db"
  database_eq := rfl
  kept := by decide +kernel

def secondRun : Run where
  folder := firstRun.after
  request := intoOne "b.json"
  database := Path.ofText "d.db"
  database_eq := rfl
  kept := by decide +kernel

/-- The settings of both runs, which are not given. -/
def unset : Document.Setup where
  choices := .dict []
  insertions := .dict []

/-- The database after the first run. -/
def afterFirst : Store where
  medium := .database
  documentId := "d"
  rows := [{ body := "x", id := 1, documentId := "d", parent := none, position := 1 }]
  nextId := 2

/-- The database after the second run. -/
def afterSecond : Store := afterFirst.added none 2 { body := "y" }

theorem load_firstRun : load firstRun.folder firstRun.request =
    .ok { outline := [.text "x"], setup := unset } := rfl

theorem openStore_firstRun : firstRun.folder.openStore firstRun.database firstRun.documentId =
    .ok (Store.emptyFile.forDocument "d") := rfl

theorem document_firstRun :
    document { outline := [.text "x"], setup := unset } (Store.emptyFile.forDocument "d") =
      (.ok { store := afterFirst }, afterFirst) := rfl

theorem after_firstRun :
    firstRun.after = twoOutlines.closeStore (Path.ofText "d.db") afterFirst := by
  unfold Run.after
  rw [Run.answer_eq load_firstRun openStore_firstRun, snd_perform, document_firstRun]
  rfl

theorem load_secondRun : load secondRun.folder secondRun.request =
    .ok { outline := [.text "y"], setup := unset } := by
  show load firstRun.after _ = _
  rw [after_firstRun]
  rfl

theorem openStore_secondRun :
    secondRun.folder.openStore secondRun.database secondRun.documentId = .ok afterFirst := by
  show firstRun.after.openStore _ _ = _
  rw [after_firstRun]
  rfl

theorem onOneDatabase_secondRun : OnOneDatabase ([firstRun] ++ [secondRun]) where
  new := by
    rintro _ ⟨⟩ d s hs
    exact (Except.ok.inj hs).symm
  found := List.isChain_pair.2 fun _ => rfl

theorem document_secondRun : document { outline := [.text "y"], setup := unset } afterFirst =
    (.ok { store := afterSecond }, afterSecond) := rfl

theorem imported_secondRun : gathered "d" ([firstRun] ++ [secondRun]) = [.text "x", .text "y"] := by
  have hfirst : firstRun.imported = [.text "x"] := by
    rw [Run.imported_eq load_firstRun openStore_firstRun, document_firstRun]
  have hsecond : secondRun.imported = [.text "y"] := by
    rw [Run.imported_eq load_secondRun openStore_secondRun, document_secondRun]
  rw [gathered_concat, hsecond]
  show List.flatMap Run.imported [firstRun] ++ _ = _
  rw [List.flatMap_singleton, hfirst]
  rfl

theorem writes_secondRun : Writes secondRun.outcome "[\n  \"x\",\n  \"y\"\n]\n" := by
  have houtline : Document.outline { store := afterSecond } .display false =
      .ok [.text "x", .text "y"] := by cbv
  have htext : render {} secondRun.request { store := afterSecond } =
      .ok "[\n  \"x\",\n  \"y\"\n]" := by
    show (Document.outline { store := afterSecond } .display false >>= fun items =>
      Json.write true (.list items)) = _
    rw [houtline]
    rfl
  unfold Run.outcome
  rw [Run.answer_eq load_secondRun openStore_secondRun]
  exact perform_writes document_secondRun htext rfl

theorem runs_accumulate_second :
    ∃ inputs, load secondRun.folder secondRun.request = .ok inputs ∧
      Writes (perform { secondRun.request with database := none }
        { inputs with outline := [.text "x", .text "y"] } { documentId := "d" }).1
        "[\n  \"x\",\n  \"y\"\n]\n" := by
  obtain ⟨inputs, hload, halone, -⟩ :=
    runs_accumulate.1 [firstRun] secondRun onOneDatabase_secondRun writes_secondRun.1
  refine ⟨inputs, hload, ?_⟩
  rw [writes_secondRun.2] at halone
  exact imported_secondRun ▸ halone

end CommandLine

end Bylaws
