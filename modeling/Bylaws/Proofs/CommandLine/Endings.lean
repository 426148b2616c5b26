import Bylaws.Proofs.CommandLine.Accumulation
import Bylaws.Proofs.CommandLine.Levels
import Mathlib.Data.List.ReduceOption

/-!
# How a run ends

A run on files writes the document and ends with status 0, or writes nothing and ends with status 1
after it has reported what is wrong with the input, or writes nothing and lets a fault escape, or
does not end (`run_ends`). All causes for the last two are listed in `Leak`: those in the input, and
those in which the machine gives out. None of them is there where the files are JSON, the levels of
the numbering have the shape of levels, there is no database, and the machine copes with what the
files hold (`Plain`).
-/

namespace Bylaws

open Forest

/-! ## Databases that runs have made -/

theorem Store.IsFile.forDocument {s : Store} (h : s.IsFile) (d : String) :
    (s.forDocument d).IsFile where
  medium_eq := h.medium_eq
  numbered := h.numbered.mono (List.Sublist.refl _) (Int.le_refl _)
  shows := h.shows

/-- All databases of a folder hold documents that are forests. -/
def Folder.Sound (f : Folder) : Prop := ∀ e ∈ f.files, ∀ s, e.2 = .database s → s.IsFile

namespace Folder

variable {f : Folder} {p : Path} {d : String} {s : Store}

theorem Sound.put (h : f.Sound) (place : Path) (hs : s.IsFile) :
    (f.put place (.database s)).Sound := by
  intro e he t ht
  rcases List.mem_cons.1 he with rfl | he
  · cases ht
    exact hs
  · exact h e (List.mem_filter.1 he).1 t ht

theorem Sound.closeStore (h : f.Sound) (p : Path) (hs : s.IsFile) : (f.closeStore p s).Sound := by
  unfold Folder.closeStore
  split_ifs
  · exact h
  · cases f.placeOf p with
    | error e => exact h
    | ok place => exact h.put place hs

/-- A store that is opened is on a file of documents, for the one that is asked for. -/
theorem Sound.openStore (h : f.Sound) (hs : f.openStore p d = .ok s) :
    s.IsFile ∧ s.forDocument d = s := by
  have hfresh : ∀ s : Store, s = { medium := .database, documentId := d } →
      s.IsFile ∧ s.forDocument d = s := by
    rintro s rfl
    exact ⟨Store.isFile_emptyFile.forDocument d, rfl⟩
  unfold Folder.openStore at hs
  dsimp only at hs
  split_ifs at hs
  · exact hfresh s (Except.ok.inj hs).symm
  · obtain ⟨place, -, hs⟩ := Fault.bind_eq_ok hs
    cases hfound : f.find? place with
    | none =>
      rw [hfound] at hs
      exact hfresh s (Except.ok.inj hs).symm
    | some file =>
      rw [hfound] at hs
      cases file with
      | data bytes =>
        dsimp only at hs
        split_ifs at hs
        exact hfresh s (Except.ok.inj hs).symm
      | directory => exact hfresh s (Except.ok.inj hs).symm
      | database t =>
        obtain rfl := Except.ok.inj hs
        obtain ⟨e, he, hfile⟩ := Option.map_eq_some_iff.1 hfound
        exact ⟨(h e (List.mem_of_find?_eq_some he) t hfile).forDocument d, rfl⟩

theorem placeOf_faults (f : Folder) (p : Path) :
    OnlyFaults (fun e => e.Reported ∨ ∃ path, e = .notDatabase path) (f.placeOf p) := by
  have hnot : ∀ path, (Fault.notDatabase path).Reported ∨
      ∃ path', Fault.notDatabase path = .notDatabase path' := fun path => .inr ⟨path, rfl⟩
  unfold placeOf
  split
  · split
    · split_ifs
      · exact .ok _
      · exact .error (hnot _)
    · exact .error (hnot _)
  · exact .error (.inl rfl)
  · exact .error (hnot _)
  · split_ifs
    · exact .error (hnot _)
    · exact .ok _

/-- A database cannot be opened where the path is too long, or leads to something else. -/
theorem openStore_faults (f : Folder) (p : Path) (d : String) :
    OnlyFaults (fun e => e.Reported ∨ ∃ path, e = .notDatabase path) (f.openStore p d) := by
  unfold openStore
  dsimp only
  split_ifs
  · exact .ok _
  · refine (placeOf_faults f p).bind fun place _ => ?_
    split
    · exact .ok _
    · split_ifs
      · exact .ok _
      · exact .error (.inr ⟨_, rfl⟩)
    · exact .ok _

end Folder

/-- The files of settings that a request names, in the order in which they are read. -/
def Request.named (r : Request) : List Named :=
  [r.numbering, r.choices, r.insertions].reduceOption

theorem Request.mem_named {r : Request} {n : Named} :
    n ∈ r.named ↔ r.numbering = some n ∨ r.choices = some n ∨ r.insertions = some n := by
  unfold Request.named
  simp [List.reduceOption_mem_iff, eq_comm]

/-- The data files of a request. -/
def Request.Reads (r : Request) (p : Path) : Prop := p = r.outline ∨ .path p ∈ r.named

namespace CommandLine

/-- The store that the document of a request begins with: an empty one in memory, or the one on its
database. -/
def Begins (folder : Folder) (r : Request) (s : Store) : Prop :=
  r.database = none ∧ s = { documentId := documentId r } ∨
    ∃ p, r.database = some (.path p) ∧ folder.openStore p (documentId r) = .ok s

/-- The values that a run of a request may have to show: what a numbering is spelled with, all
settings, and the first element of a list that nothing comes before. -/
inductive Shown (folder : Folder) (r : Request) : Value → Prop where
  | numbering {p : Path} {entries : List (Value × Value)} {v : Value} :
      r.numbering = some (.path p) → folder.settings "Numbering" p = .ok entries →
      Numbering.Spells entries v → Shown folder r v
  | setting {label : String} {p : Path} {entries : List (Value × Value)} {e : Value × Value} :
      r.choices = some (.path p) ∨ r.insertions = some (.path p) →
      folder.settings label p = .ok entries → e ∈ entries → Shown folder r e.2
  | element {items : List Value} {s t : Store} {e : Fault} {v : Value} :
      folder.outline r.outline = .ok items → Begins folder r s →
      Store.importOutline (.list items) none s = (.error e, t) →
      e = .nestingJump v ∨ e = .unshowable v → Shown folder r v

/-- What escapes from a request on some files, or keeps it going without end, by its cause. -/
inductive Leak (folder : Folder) (r : Request) : Fault → Prop where
  /-- A YAML file fails in a way of its own. -/
  | unread {p : Path} {e : Fault} : r.Reads p → folder.Unread p e → Leak folder r e
  /-- Two dashes alone are joined to an option that names a file. -/
  | noFile : .nothing ∈ r.named → Leak folder r (.noMember "list" "suffix")
  /-- The levels of the numbering are no dictionary of dictionaries, or infinity is a depth. -/
  | numbering {p : Path} {entries : List (Value × Value)} {e : Fault} :
      r.numbering = some (.path p) → folder.settings "Numbering" p = .ok entries →
      Numbering.isShaped entries = false →
      Numbering.ofValue (.dict entries) folder.machine.plain = .error e → Misshapen e →
      Leak folder r e
  /-- A value is nested too deep to be shown. -/
  | value {v : Value} : Shown folder r v → folder.machine.overflows v = true →
      Leak folder r .stackOverflow
  /-- A list in the outline lies within itself, and its import does not end. -/
  | endless {items : List Value} : r.outline.isYaml = true →
      folder.outline r.outline = .ok items → areTrees items = false → Leak folder r .endless
  | notDatabase {p : Path} {path : String} : r.database = some (.path p) →
      folder.openStore p (documentId r) = .error (.notDatabase path) →
      Leak folder r (.notDatabase path)
  /-- The database refuses the level of a heading or a position. -/
  | refused {p : Path} {items : List Value} {s t : Store} {e : Fault} :
      r.database = some (.path p) → folder.openStore p (documentId r) = .ok s →
      folder.outline r.outline = .ok items →
      Store.importOutline (.list items) none s = (.error e, t) →
      e = .outOfStoredRange ∨ e = .notTransferable → Leak folder r e
  /-- The database refuses a text. -/
  | text {p : Path} {items : List Value} {s : Store} {e : Fault} :
      r.database = some (.path p) → folder.openStore p (documentId r) = .ok s →
      folder.outline r.outline = .ok items → folder.machine.refusal? s items = some e →
      Leak folder r e
  /-- The document is nested too deep to be written. -/
  | document {inputs : Inputs} {s t : Store} {d : Document} : load folder r = .ok inputs →
      Begins folder r s → document inputs s = (.ok d, t) →
      folder.machine.overflowsWriting r.format (viewOf r d) d.store.shape = true →
      Leak folder r .stackOverflow
  /-- The output refuses half of a pair in the text of the document. -/
  | output {inputs : Inputs} {s t : Store} {d : Document} {text : String} {e : Fault} :
      load folder r = .ok inputs → Begins folder r s → document inputs s = (.ok d, t) →
      render folder.machine r d = .ok text →
      folder.machine.checkOutput (line text) = .error e → Leak folder r e

/-- How a run of a request ends: the document is written in the format of the request, or nothing
is written and a mistake in the input is reported, or nothing is written and a fault escapes, or
the run does not end. -/
inductive Ends (folder : Folder) (r : Request) : Outcome → Prop where
  | written (notices : List Notice) {inputs : Inputs} {s t : Store} {d : Document}
      {text : String} : load folder r = .ok inputs → Begins folder r s →
      document inputs s = (.ok d, t) → render folder.machine r d = .ok text →
      Ends folder r { ending := .status 0, output := line text, notices }
  | reported (notices : List Notice) {e : Fault} : e.Reported →
      Ends folder r { ending := .status 1, notices := notices ++ [.error e] }
  | escaped (notices : List Notice) {e : Fault} : ¬ e.Reported → e ≠ .endless →
      Leak folder r e → Ends folder r { ending := .escaped e, notices }
  | never (notices : List Notice) : Leak folder r .endless →
      Ends folder r { ending := .never, notices }

/-- What the data files of a request hold is nested no more than `n` levels deep. -/
def Within (folder : Folder) (r : Request) (n : Nat) : Prop :=
  ∀ p, r.Reads p → ∀ v, folder.value p = .ok v → v.levels ≤ n

/-- Files of JSON, a numbering of the right shape, no database, a stack that suffices for what the
files hold, and an output that takes what is written. -/
structure Plain (folder : Folder) (r : Request) : Prop where
  outline : r.outline.isYaml = false
  named : ∀ n ∈ r.named, ∃ p : Path, n = .path p ∧ p.isYaml = false
  numbering : ∀ p entries, r.numbering = some (.path p) →
    folder.settings "Numbering" p = .ok entries → Numbering.isShaped entries = true
  database : r.database = none
  stack : ∃ n, folder.machine.Copes n ∧ Within folder r n
  output : folder.machine.strictOutput = true → ∀ inputs d t text, load folder r = .ok inputs →
    document inputs { documentId := documentId r } = (.ok d, t) →
    render folder.machine r d = .ok text → ∀ c ∈ text.toList, Text.isStandIn c = false

variable {folder : Folder} {r : Request} {inputs : Inputs} {s : Store} {f : Forest}

theorem mem_line {text : String} {c : Char} (h : c ∈ (line text).toList) :
    c ∈ text.toList ∨ c = '\n' := by
  unfold line at h
  split_ifs at h
  · exact .inl h
  · rw [String.toList_append] at h
    exact (List.mem_append.1 h).imp_right List.mem_singleton.1

/-! ## Loading -/

theorem loadSettings_faults (label : String) {o : Option Named}
    (ho : ∀ n, o = some n → n ∈ r.named) :
    OnlyFaults (fun e => e.Reported ∨ Leak folder r e) (loadSettings folder label o) := by
  unfold loadSettings
  split
  · exact .ok _
  · exact .error (.inr (.noFile (ho _ rfl)))
  · next p =>
    exact (Folder.settings_faults folder label p).mono fun _ h =>
      h.imp_right (.unread (.inr (ho _ rfl)))

/-- Settings that are there come from a file. -/
theorem loadSettings_eq_ok {label : String} {o : Option Named} {entries : List (Value × Value)}
    (h : loadSettings folder label o = .ok entries) (hentries : ¬ entries.isEmpty = true) :
    ∃ p, o = some (.path p) ∧ folder.settings label p = .ok entries := by
  unfold loadSettings at h
  split at h
  · cases h
    exact absurd rfl hentries
  · exact nomatch h
  · next p => exact ⟨p, rfl, h⟩

theorem load_faults (folder : Folder) (r : Request) :
    OnlyFaults (fun e => e.Reported ∨ Leak folder r e) (load folder r) := by
  refine ((Folder.outline_faults folder r.outline).mono fun _ h =>
    h.imp_right (.unread (.inl rfl))).bind fun outline _ => ?_
  refine (loadSettings_faults "Numbering" fun n hn =>
    Request.mem_named.2 (.inl hn)).bind fun levels hlevels => ?_
  refine (loadSettings_faults "Choices" fun n hn =>
    Request.mem_named.2 (.inr (.inl hn))).bind fun choices _ => ?_
  refine (loadSettings_faults "Insertions" fun n hn =>
    Request.mem_named.2 (.inr (.inr hn))).bind fun insertions _ => ?_
  dsimp only
  split_ifs with hempty
  · exact .ok _
  · obtain ⟨p, hp, hentries⟩ := loadSettings_eq_ok hlevels hempty
    refine .bind (fun e he => ?_) fun _ _ => .ok _
    rcases numbering_faults folder.machine levels e he with h | ⟨h, hshape⟩ | ⟨rfl, v, hv, hdeep⟩
    · exact .inl h
    · exact .inr (.numbering hp hentries hshape he h)
    · exact .inr (.value (.numbering hp hentries hv) hdeep)

/-- What is known of the inputs that a request loads. -/
structure Loaded (folder : Folder) (r : Request) (inputs : Inputs)
    (choices insertions : List (Value × Value)) : Prop where
  outline_eq : folder.outline r.outline = .ok inputs.outline
  choices_eq : loadSettings folder "Choices" r.choices = .ok choices
  insertions_eq : loadSettings folder "Insertions" r.insertions = .ok insertions
  setup_choices : inputs.setup.choices = .dict choices
  setup_insertions : inputs.setup.insertions = .dict insertions
  styled : inputs.setup.numbering.Styled
  machine_eq : inputs.machine = folder.machine

theorem load_eq_ok (h : load folder r = .ok inputs) :
    ∃ choices insertions, Loaded folder r inputs choices insertions := by
  obtain ⟨outline, houtline, h⟩ := Fault.bind_eq_ok h
  obtain ⟨levels, -, h⟩ := Fault.bind_eq_ok h
  obtain ⟨choices, hchoices, h⟩ := Fault.bind_eq_ok h
  obtain ⟨insertions, hinsertions, h⟩ := Fault.bind_eq_ok h
  refine ⟨choices, insertions, ?_⟩
  dsimp only at h
  split_ifs at h
  · cases h
    exact ⟨houtline, hchoices, hinsertions, rfl, rfl, fun _ he => absurd he List.not_mem_nil, rfl⟩
  · obtain ⟨numbering, hnumbering, h⟩ := Fault.bind_eq_ok h
    cases h
    exact ⟨houtline, hchoices, hinsertions, rfl, rfl, styled_ofValue hnumbering, rfl⟩

/-! ## Plain requests -/

namespace Plain

theorem eq_of_begins (h : Plain folder r) (hbegins : Begins folder r s) :
    s = { documentId := documentId r } := by
  rcases hbegins with ⟨-, rfl⟩ | ⟨p, hp, -⟩
  · rfl
  · exact nomatch hp.symm.trans h.database

/-- What the outline of a plain request holds is nested less deep than its file. -/
theorem levelsIn_outline (h : Plain folder r) {n : Nat} (hn : Within folder r n)
    {items : List Value} (hitems : folder.outline r.outline = .ok items) :
    items = [] ∨ 1 + Value.levelsIn items ≤ n := by
  refine (Folder.outline_eq_ok h.outline hitems).imp id ?_
  rintro ⟨hvalue, -⟩
  rw [Nat.add_comm]
  exact hn _ (.inl rfl) _ hvalue

/-- The settings of a plain request are nested less deep than their file. -/
theorem levels_settings (h : Plain folder r) {n : Nat} (hn : Within folder r n) {p : Path}
    {label : String} {entries : List (Value × Value)} (hp : .path p ∈ r.named)
    (hentries : folder.settings label p = .ok entries) :
    entries = [] ∨ areLooplessEntries entries = true ∧ Value.levelsInEntries entries < n := by
  obtain ⟨p', ⟨⟩, hyaml⟩ := h.named _ hp
  refine (Folder.settings_eq_ok hyaml hentries).imp id ?_
  rintro ⟨hvalue, hloopless⟩
  exact ⟨hloopless, hn _ (.inr hp) _ hvalue⟩

/-- What a plain request may have to show is nested no deeper than its files. -/
theorem levels_shown (h : Plain folder r) {n : Nat} (hn : Within folder r n) {v : Value}
    (hv : Shown folder r v) : v.levels ≤ n := by
  cases hv with
  | numbering hp hentries hspells =>
    rcases h.levels_settings hn (Request.mem_named.2 (.inl hp)) hentries with rfl | ⟨hloopless, hlt⟩
    · cases hspells with
      | separator hv => exact nomatch hv
      | member hlevels => exact nomatch hlevels
    · exact (hspells.levels_le hloopless).trans hlt.le
  | setting hp hentries he =>
    rcases h.levels_settings hn (Request.mem_named.2 (.inr hp)) hentries with rfl | ⟨-, hlt⟩
    · exact absurd he List.not_mem_nil
    · exact (Value.levels_le_of_mem_entries he).trans hlt.le
  | @element items s t e v hitems hbegins hrun hshown =>
    obtain rfl := h.eq_of_begins hbegins
    have htrees : areTrees items = false → False := fun hloops =>
      absurd (hloops.symm.trans (Folder.areTrees_outline h.outline hitems)) (by decide)
    have hfault := Store.importOutline_faults (C := .top) rfl rfl
      (Store.fresh_empty .memory (documentId r)).shows items htrees e
      (congrArg Prod.fst hrun)
    have hle := hfault.levels_le hshown
    rcases h.levelsIn_outline hn hitems with rfl | hlt
    · exact hle.trans (Nat.zero_le n)
    · omega

/-- The stack suffices to write the document of a plain request. -/
theorem overflowsWriting_eq (h : Plain folder r) {t : Store} {d : Document}
    (hload : load folder r = .ok inputs) (hbegins : Begins folder r s)
    (hdoc : document inputs s = (.ok d, t)) :
    folder.machine.overflowsWriting r.format (viewOf r d) d.store.shape = false := by
  obtain ⟨n, hcopes, hn⟩ := h.stack
  obtain ⟨_, _, hloaded⟩ := load_eq_ok hload
  obtain rfl := h.eq_of_begins hbegins
  have hopened := opened inputs { documentId := documentId r }
  rw [hdoc] at hopened
  cases hopened with
  | done _ _ hrun =>
    refine hcopes.writing _ _ _ fun e he => ?_
    rcases h.levelsIn_outline hn hloaded.outline_eq with hnil | hlt
    · rw [hnil] at hrun
      cases hrun
      exact absurd he List.not_mem_nil
    · exact (Store.depth_le_of_import hrun e he).trans hlt

/-- The output takes the document of a plain request. -/
theorem checkOutput_eq (h : Plain folder r) {t : Store} {d : Document} {text : String}
    (hload : load folder r = .ok inputs) (hbegins : Begins folder r s)
    (hdoc : document inputs s = (.ok d, t)) (hrender : render folder.machine r d = .ok text) :
    folder.machine.checkOutput (line text) = .ok () := by
  obtain rfl := h.eq_of_begins hbegins
  have hcases := Machine.checkOutput_cases folder.machine (line text)
  rcases hcases with hok | ⟨hstrict, ⟨c, hc, hhalf⟩, -⟩
  · exact hok
  · have hwhole := h.output hstrict inputs d t text hload hdoc hrender
    rcases mem_line hc with hc | rfl
    · exact absurd (hhalf.symm.trans (hwhole c hc)) (by decide)
    · exact absurd hhalf (by decide)

/-- Nothing escapes from a plain request, and it does not go on without end. -/
theorem tight (h : Plain folder r) {e : Fault} : ¬ Leak folder r e := by
  intro hleak
  cases hleak with
  | unread hp hunread =>
    rcases hp with rfl | hp
    · exact absurd (hunread.1.symm.trans h.outline) (by decide)
    · obtain ⟨p', hp', hyaml⟩ := h.named _ hp
      cases hp'
      exact absurd (hunread.1.symm.trans hyaml) (by decide)
  | noFile hp =>
    obtain ⟨_, hp', -⟩ := h.named _ hp
    exact nomatch hp'
  | numbering hp hentries hshaped _ _ =>
    exact absurd (hshaped.symm.trans (h.numbering _ _ hp hentries)) (by decide)
  | value hshown hdeep =>
    obtain ⟨n, hcopes, hn⟩ := h.stack
    exact absurd (hdeep.symm.trans (hcopes.overflows (h.levels_shown hn hshown))) (by decide)
  | endless hyaml _ _ => exact absurd (hyaml.symm.trans h.outline) (by decide)
  | notDatabase hp _ => exact nomatch hp.symm.trans h.database
  | refused hp _ _ _ _ => exact nomatch hp.symm.trans h.database
  | text hp _ _ _ => exact nomatch hp.symm.trans h.database
  | document hload hbegins hdoc hdeep =>
    exact absurd (hdeep.symm.trans (h.overflowsWriting_eq hload hbegins hdoc)) (by decide)
  | output hload hbegins hdoc hrender hout =>
    exact nomatch hout.symm.trans (h.checkOutput_eq hload hbegins hdoc hrender)

end Plain

/-! ## The document -/

theorem numbering_of_new {setup : Document.Setup} {d : Document}
    (h : Document.new s setup = .ok d) : d.numbering = setup.numbering := by
  obtain ⟨_, -, h⟩ := Fault.bind_eq_ok h
  obtain ⟨_, -, h⟩ := Fault.bind_eq_ok h
  cases h
  rfl

/-- A failed run writes nothing. -/
theorem ends_failed {e : Fault} (h : e.Reported ∨ Leak folder r e) (notices : List Notice) :
    Ends folder r (failed notices e) := by
  unfold failed
  by_cases he : isReported e = true
  · rw [if_pos he]
    exact .reported notices he
  · have hleak := h.resolve_left he
    rw [if_neg he]
    by_cases hunending : e.category = .unending
    · obtain rfl := Fault.eq_endless hunending
      exact .never notices hleak
    · rw [if_neg hunending]
      refine .escaped notices he ?_ hleak
      rintro rfl
      exact hunending rfl

/-- Settings that are checked come from a file. -/
theorem setting_faults {α : Type} [Setting α]
    (hα : ∀ v : Value, OnlyFaults Fault.Reported (Setting.ofValue v : Except Fault α))
    {label : String} {o : Option Named} {entries : List (Value × Value)}
    (ho : o = r.choices ∨ o = r.insertions)
    (hentries : loadSettings folder label o = .ok entries) :
    OnlyFaults (fun e => e.Reported ∨ Leak folder r e)
      (folder.machine.checkSettings α (.dict entries)) := by
  refine (checkSettings_faults hα folder.machine entries).mono fun x hx => hx.imp_right ?_
  rintro ⟨rfl, e, he, hdeep⟩
  have hsome : ¬ entries.isEmpty = true := fun hempty =>
    absurd (List.isEmpty_iff.1 hempty ▸ he) List.not_mem_nil
  obtain ⟨p, rfl, hsettings⟩ := loadSettings_eq_ok hentries hsome
  exact .value (.setting (ho.imp Eq.symm Eq.symm) hsettings he) hdeep

/-- Inputs are refused for mistakes that are reported, or for a cause that escapes. -/
theorem checkInputs_faults (hload : load folder r = .ok inputs) (hbegins : Begins folder r s) :
    OnlyFaults (fun e => e.Reported ∨ Leak folder r e) (checkInputs inputs s) := by
  obtain ⟨choices, insertions, hloaded⟩ := load_eq_ok hload
  unfold checkInputs
  rw [hloaded.machine_eq, hloaded.setup_choices, hloaded.setup_insertions]
  refine (setting_faults choice_faults (.inl rfl) hloaded.choices_eq).bind fun _ _ => ?_
  refine (setting_faults insertion_faults (.inr rfl) hloaded.insertions_eq).bind fun _ _ => ?_
  intro e he
  obtain ⟨hmedium, hrefusal⟩ := Machine.checkStored_eq_error he
  rcases hbegins with ⟨-, rfl⟩ | ⟨p, hp, hopen⟩
  · exact nomatch hmedium
  · exact .inr (.text hp hopen hloaded.outline_eq hrefusal)

/-- An import fails for mistakes that are reported, or for a cause that escapes. -/
theorem import_faults (hbegins : Begins folder r s) (hs : s.spoilt = false) (hf : s.Shows f)
    {items : List Value} (hitems : folder.outline r.outline = .ok items) {e : Fault} {t : Store}
    (hrun : Store.importOutline (.list items) none s = (.error e, t)) :
    (folder.machine.showing e).Reported ∨ Leak folder r (folder.machine.showing e) := by
  have hyaml : areTrees items = false → r.outline.isYaml = true ∧ areTrees items = false := by
    intro hloops
    refine ⟨?_, hloops⟩
    by_contra hplain
    exact absurd (hloops.symm.trans (Folder.areTrees_outline (by simpa using hplain) hitems))
      (by decide)
  have hrefused : s.medium = .database → e = .outOfStoredRange ∨ e = .notTransferable →
      Leak folder r e := by
    intro hm he
    rcases hbegins with ⟨-, rfl⟩ | ⟨p, hp, hopen⟩
    · exact nomatch hm
    · exact .refused hp hopen hitems hrun he
  cases Store.importOutline_faults (C := .top) rfl hs hf items hyaml e
      (congrArg Prod.fst hrun) with
  | element _ => exact .inl rfl
  | @nesting v _ _ hshown =>
    cases hdeep : folder.machine.overflows v with
    | true =>
      have hoverflow : folder.machine.showing e = .stackOverflow := by
        rcases hshown with rfl | rfl <;> exact if_pos hdeep
      rw [hoverflow]
      exact .inr (.value (.element hitems hbegins hrun hshown) hdeep)
    | false =>
      have hself : folder.machine.showing e = e := by
        rcases hshown with rfl | rfl <;> exact if_neg (by simp [hdeep])
      rw [hself]
      rcases hshown with rfl | rfl <;> exact .inl rfl
  | number hnumber =>
    rw [hnumber.showing_eq]
    exact .inl (.of_number hnumber)
  | endless h => exact .inr (.endless h.1 hitems h.2)
  | range hm => exact .inr (hrefused hm (.inl rfl))
  | transfer hm => exact .inr (hrefused hm (.inr rfl))

theorem ends_delivered {t : Store} {d : Document} {text : String} (notices : List Notice)
    (hload : load folder r = .ok inputs) (hbegins : Begins folder r s)
    (hdoc : document inputs s = (.ok d, t)) (hrender : render folder.machine r d = .ok text) :
    Ends folder r (delivered folder.machine notices (line text)) := by
  have hcases := Machine.checkOutput_cases folder.machine (line text)
  rcases hcases with hok | ⟨-, -, half, i, j, hout⟩
  · rw [delivered_eq_ok hok]
    exact .written notices hload hbegins hdoc hrender
  · unfold delivered
    rw [hout]
    exact .escaped notices Bool.false_ne_true nofun (.output hload hbegins hdoc hrender hout)

theorem ends_perform (hbegins : Begins folder r s) (hs : s.spoilt = false) (hf : s.Shows f)
    (hload : load folder r = .ok inputs) : Ends folder r (perform r inputs s).1 := by
  obtain ⟨choices, insertions, hloaded⟩ := load_eq_ok hload
  have hmachine := hloaded.machine_eq
  have hopened := opened inputs s
  generalize hdoc : document inputs s = x at hopened
  cases hopened with
  | refused hchecked =>
    rw [perform_unmade hdoc]
    exact ends_failed (checkInputs_faults hload hbegins _ hchecked) []
  | failed hrun =>
    rw [perform_unmade hdoc, hmachine]
    exact ends_failed (import_faults hbegins hs hf hloaded.outline_eq hrun) []
  | @done d _ t _ hnew hrun =>
    obtain ⟨-, -, -, -, g, hg⟩ := Store.importOutline_list_eq_ok (C := .top) hs hf hrun
    have hstyled : Numbering.Styled { d with store := t }.numbering :=
      numbering_of_new hnew ▸ hloaded.styled
    cases hrender : render folder.machine r { d with store := t } with
    | ok text =>
      rw [perform_written hdoc (hmachine ▸ hrender), hmachine]
      exact ends_delivered _ hload hbegins hdoc hrender
    | error e =>
      rw [perform_unwritten hdoc (hmachine ▸ hrender)]
      refine ends_failed ((render_faults folder.machine r hg hstyled e hrender).imp_right ?_) _
      rintro ⟨rfl, hdeep⟩
      exact .document hload hbegins hdoc hdeep

/-! ## Runs -/

/-- How a request ends on files that runs have left. -/
theorem ends_answer (hfolder : folder.Sound) (r : Request) : Ends folder r (answer folder r).1 := by
  unfold answer
  cases hload : load folder r with
  | error e => exact ends_failed (load_faults folder r e hload) []
  | ok inputs =>
    dsimp only
    split
    · next hdatabase =>
      have hfresh := Store.fresh_empty .memory (documentId r)
      exact ends_perform (.inl ⟨hdatabase, rfl⟩) rfl hfresh.shows hload
    · exact ends_failed (e := .notPath "list") (.inl rfl) []
    · next p hp =>
      cases hopen : folder.openStore p (documentId r) with
      | error e =>
        refine ends_failed ((Folder.openStore_faults folder p _ e hopen).imp_right ?_) []
        rintro ⟨path, rfl⟩
        exact .notDatabase hp hopen
      | ok s =>
        obtain ⟨hfile, hd⟩ := hfolder.openStore hopen
        obtain ⟨f, hf⟩ := hfile.shows (documentId r)
        rw [hd] at hf
        have hspoilt : s.spoilt = false := hd ▸ rfl
        exact ends_perform (.inr ⟨p, hp, hopen⟩) hspoilt hf hload

theorem isFile_perform (r : Request) (inputs : Inputs) {d : String} (h : s.IsFile)
    (hd : s.forDocument d = s) : (perform r inputs s).2.IsFile := by
  have hvisit := Store.snd_visit_import s d inputs.outline
  rw [hd] at hvisit
  have hopened := opened inputs s
  rw [snd_perform]
  generalize document inputs s = x at hopened ⊢
  cases hopened with
  | refused _ => exact h
  | failed hrun =>
    rw [hrun] at hvisit
    exact hvisit ▸ h.visit _
  | done _ _ hrun =>
    rw [hrun] at hvisit
    exact hvisit ▸ h.visit _

theorem sound_answer (h : folder.Sound) (r : Request) : (answer folder r).2.Sound := by
  unfold answer
  cases load folder r with
  | error e => exact h
  | ok inputs =>
    cases r.database with
    | none => exact h
    | some n =>
      cases n with
      | nothing => exact h
      | path p =>
        dsimp only
        cases hopen : folder.openStore p (documentId r) with
        | error e => exact h
        | ok s =>
          obtain ⟨hfile, hd⟩ := h.openStore hopen
          exact h.closeStore p (isFile_perform r inputs hfile hd)

/-- A run leaves databases of documents that are forests. -/
theorem sound_run (h : folder.Sound) (args : List String) : (run folder args).2.Sound := by
  unfold run
  cases Arguments.parse args with
  | help => exact h
  | refused => exact h
  | request r => exact sound_answer h r

/-- The files after some runs. -/
def after (folder : Folder) (before : List (List String)) : Folder :=
  before.foldl (fun f args => (run f args).2) folder

theorem sound_after (h : folder.Sound) (before : List (List String)) :
    (after folder before).Sound := by
  induction before generalizing folder with
  | nil => exact h
  | cons args before ih => exact ih (sound_run h args)

/-- A run of a request, on any files, on any machine and after any other runs, writes the document
and ends with status 0, or it writes nothing and ends with status 1, or for one of the causes in
`Leak` a fault escapes or it does not end. A plain request always ends with one of the two. -/
theorem run_ends (h : folder.Sound) (before : List (List String)) {args : List String}
    (hargs : Arguments.parse args = .request r) :
    let files := after folder before
    let outcome := (run files args).1
    Ends files r outcome ∧
      (∀ n, outcome.ending = .status n → n = 0 ∨ n = 1 ∧ outcome.output = "") ∧
      (Plain files r → outcome.ending = .status 0 ∨
        outcome.ending = .status 1 ∧ outcome.output = "") := by
  have hends : Ends (after folder before) r (run (after folder before) args).1 := by
    unfold run
    rw [hargs]
    exact ends_answer (sound_after h before) r
  dsimp only
  refine ⟨hends, ?_⟩
  generalize (run (after folder before) args).1 = outcome at hends ⊢
  cases hends with
  | written notices => simp
  | reported notices he => simp
  | escaped notices he hne hleak =>
    exact ⟨fun _ hn => (nomatch hn), fun hplain => absurd hleak hplain.tight⟩
  | never notices hleak =>
    exact ⟨fun _ hn => (nomatch hn), fun hplain => absurd hleak hplain.tight⟩

/-! ## Instances -/

/-- A request with a numbering. -/
def numbered : Request where
  outline := Path.ofText "o.json"
  numbering := some (.path (Path.ofText "n.json"))

theorem parse_numbered :
    Arguments.parse ["o.json", "--numbering", "n.json"] = .request numbered := by
  decide +kernel

/-- An outline file of one text, and a file of a numbering, on a machine with a small stack. -/
def outlineAndNumbering (numbering : List UInt8) : Folder where
  files := [(Path.ofText "o.json", .data [91, 34, 97, 34, 93]),
    (Path.ofText "n.json", .data numbering)]
  machine := .upTo 100

theorem sound_outlineAndNumbering (numbering : List UInt8) :
    (outlineAndNumbering numbering).Sound := by
  intro e he s hs
  rcases List.mem_pair.1 he with rfl | rfl
  · exact nomatch hs
  · exact nomatch hs

/-- The levels are `{"levels": {"1": "x"}}`: a text where a level should be. -/
def textForLevel : Folder :=
  outlineAndNumbering [123, 34, 108, 101, 118, 101, 108, 115, 34, 58, 32, 123, 34, 49, 34, 58, 32,
    34, 120, 34, 125, 125]

theorem load_textForLevel : load textForLevel numbered = .error (.noMember "str" "get") := rfl

/-- A numbering with a text for a level lets a fault escape. -/
theorem text_for_level_escapes :
    Arguments.parse ["o.json", "--numbering", "n.json"] = .request numbered ∧
      (run textForLevel ["o.json", "--numbering", "n.json"]).1.ending =
        .escaped (.noMember "str" "get") := by
  refine ⟨parse_numbered, ?_⟩
  unfold run answer
  rw [parse_numbered]
  dsimp only
  rw [load_textForLevel]
  rfl

/-- The levels are `{"levels": {"1": {}}}`: one level with its defaults. -/
def defaultLevel : Folder :=
  outlineAndNumbering [123, 34, 108, 101, 118, 101, 108, 115, 34, 58, 32, 123, 34, 49, 34, 58, 32,
    123, 125, 125, 125]

theorem value_outline : defaultLevel.value (Path.ofText "o.json") = .ok (.list [.text "a"]) := rfl

theorem value_numbering :
    defaultLevel.value (Path.ofText "n.json") =
      .ok (.dict [(.text "levels", .dict [(.text "1", .dict [])])]) := rfl

theorem settings_defaultLevel :
    defaultLevel.settings "Numbering" (Path.ofText "n.json") =
      .ok [(.text "levels", .dict [(.text "1", .dict [])])] := rfl

/-- The store of the one text. -/
def oneText : Store where
  documentId := "o"
  rows := [{ body := "a", id := 1, documentId := "o", parent := none, position := 1 }]
  nextId := 2

theorem document_defaultLevel :
    ∃ inputs, load defaultLevel numbered = .ok inputs ∧
      document inputs { documentId := documentId numbered } =
        (.ok { store := oneText, numbering := { levels := [(1, {})] } }, oneText) :=
  ⟨_, rfl, rfl⟩

theorem render_defaultLevel :
    render defaultLevel.machine numbered
        { store := oneText, numbering := { levels := [(1, {})] } } =
      .ok "[\n  \"a\"\n]" := by
  have hshape : oneText.shape = [({ body := "a" }, 1)] := by cbv
  have houtline : Document.outline
      { store := oneText, numbering := { levels := [(1, {})] } } .display false =
        .ok [.text "a"] := by cbv
  unfold render
  dsimp only
  rw [hshape]
  show (Document.outline { store := oneText, numbering := _ } .display false >>= fun items =>
    Json.write true (.list items)) = _
  rw [houtline]
  rfl

theorem plain_defaultLevel : Plain defaultLevel numbered where
  outline := by decide +kernel
  named := by
    intro n hn
    obtain rfl : n = .path (Path.ofText "n.json") := by
      simpa [Request.mem_named, numbered, eq_comm] using hn
    exact ⟨_, rfl, by decide +kernel⟩
  numbering := by
    rintro p entries ⟨⟩ hentries
    obtain rfl := Except.ok.inj (settings_defaultLevel.symm.trans hentries)
    decide +kernel
  database := rfl
  stack := by
    refine ⟨100, Machine.copes_upTo 100, ?_⟩
    rintro p (rfl | hp) v hv
    · obtain rfl := Except.ok.inj (value_outline.symm.trans hv)
      decide +kernel
    · obtain rfl : p = Path.ofText "n.json" := by
        simpa [Request.mem_named, numbered, eq_comm] using hp
      obtain rfl := Except.ok.inj (value_numbering.symm.trans hv)
      decide +kernel
  output := by
    intro _ inputs d t text hload hdoc hrender
    obtain ⟨inputs', hload', hdoc'⟩ := document_defaultLevel
    obtain rfl := Except.ok.inj (hload'.symm.trans hload)
    obtain ⟨hd, -⟩ := Prod.mk.inj (hdoc'.symm.trans hdoc)
    obtain rfl := Except.ok.inj hd
    obtain rfl := Except.ok.inj (render_defaultLevel.symm.trans hrender)
    simp [Text.isStandIn, Text.standInOffset]

/-- A numbering with a level of the right shape lets nothing escape. -/
theorem run_ends_defaultLevel :
    defaultLevel.Sound ∧
      Arguments.parse ["o.json", "--numbering", "n.json"] = .request numbered ∧
      ((run defaultLevel ["o.json", "--numbering", "n.json"]).1.ending = .status 0 ∨
        (run defaultLevel ["o.json", "--numbering", "n.json"]).1.ending = .status 1 ∧
          (run defaultLevel ["o.json", "--numbering", "n.json"]).1.output = "") :=
  ⟨sound_outlineAndNumbering _, parse_numbered,
    (run_ends (sound_outlineAndNumbering _) [] parse_numbered).2.2 plain_defaultLevel⟩

end CommandLine

end Bylaws
