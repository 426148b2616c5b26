import Bylaws.CommandLine
import Bylaws.Proofs.Json.Tree
import Bylaws.Proofs.Outline
import Bylaws.Proofs.Rendering.Reading

/-!
# Faults of a run

What each part of a run may fail for. Files, settings and the writing of a document fail only for
mistakes that are reported (`outline_faults`, `checkSettings_faults`, `render_faults`), with three
exceptions: a YAML file may fail in any way that its values can, a numbering of another shape than
that of a numbering lacks a member, or has infinity for a depth (`numbering_faults`), and the stack
may run out where a value is shown or the document is written.
-/

namespace Bylaws

open Forest

theorem OnlyFaults.foldlM {α β : Type} {P : Fault → Prop} {f : β → α → Except Fault β}
    (h : ∀ b a, OnlyFaults P (f b a)) (b : β) (xs : List α) : OnlyFaults P (xs.foldlM f b) := by
  induction xs generalizing b with
  | nil => exact .ok b
  | cons a xs ih =>
    rw [List.foldlM_cons]
    exact (h b a).bind fun b' _ => ih b'

/-- A fault is reported as a mistake in the input. -/
def Fault.Reported (e : Fault) : Prop := CommandLine.isReported e = true

theorem Fault.Reported.of_value {e : Fault} (h : e.category = .value) : e.Reported := by
  unfold Reported CommandLine.isReported
  rw [h]

theorem Fault.Reported.of_number {e : Fault} (h : e.IsNumber) : e.Reported := .of_value h.1

theorem Fault.Reported.of_kind {e : Fault} (h : e.category = .kind) : e.Reported := by
  unfold Reported CommandLine.isReported
  rw [h]

theorem Fault.eq_endless {e : Fault} (h : e.category = .unending) : e = .endless := by
  cases e <;> first | rfl | exact nomatch h

/-! ## Files -/

namespace Folder

theorem step_faults (f : Folder) (p place : Path) (name : String) :
    OnlyFaults Fault.Reported (f.step p place name) := by
  unfold step
  split_ifs
  · exact .error rfl
  · exact .ok _
  · exact .error rfl
  · exact .ok _
  · exact .error rfl

theorem locate_faults (f : Folder) (p : Path) : OnlyFaults Fault.Reported (f.locate p) := by
  unfold locate
  split_ifs
  · exact .error rfl
  · exact .error rfl
  · exact .foldlM (step_faults f p) _ _

theorem bytes_faults (f : Folder) (p : Path) : OnlyFaults Fault.Reported (f.bytes p) := by
  refine (locate_faults f p).bind fun place _ => ?_
  split_ifs
  · exact .error rfl
  · cases f.find? place with
    | none => exact .ok _
    | some file => cases file <;> exact .ok _

/-- A file that is no YAML fails only for mistakes that are reported. -/
theorem value_faults {f : Folder} {p : Path} (hp : p.isYaml = false) :
    OnlyFaults Fault.Reported (f.value p) := by
  unfold value
  rw [hp]
  exact (bytes_faults f p).bind fun bytes _ => (Json.readBytes_faults bytes).mono (by
    rintro _ rfl
    rfl)

/-- A YAML file cannot be read. -/
def Unread (f : Folder) (p : Path) (e : Fault) : Prop := p.isYaml = true ∧ f.value p = .error e

theorem value_faults_or (f : Folder) (p : Path) :
    OnlyFaults (fun e => e.Reported ∨ f.Unread p e) (f.value p) := by
  cases hp : p.isYaml with
  | false => exact (value_faults hp).mono fun _ => .inl
  | true => exact fun e he => .inr ⟨hp, he⟩

theorem outline_faults (f : Folder) (p : Path) :
    OnlyFaults (fun e => e.Reported ∨ f.Unread p e) (f.outline p) := by
  refine (value_faults_or f p).bind fun v _ => ?_
  split
  · exact .ok _
  · exact .ok _
  · exact .error (.inl rfl)

theorem settings_faults (f : Folder) (label : String) (p : Path) :
    OnlyFaults (fun e => e.Reported ∨ f.Unread p e) (f.settings label p) := by
  refine (value_faults_or f p).bind fun v _ => ?_
  split
  · exact .ok _
  · exact .ok _
  · exact .error (.inl rfl)

/-- The value of a file that is no YAML holds no collection within itself. -/
theorem isLoopless_value {f : Folder} {p : Path} (hp : p.isYaml = false) {v : Value}
    (h : f.value p = .ok v) : v.isLoopless = true := by
  unfold value at h
  rw [hp] at h
  obtain ⟨bytes, -, hv⟩ := Fault.bind_eq_ok h
  exact Json.isLoopless_of_readBytes hv

/-- An outline that is no YAML is empty or the list of its file. -/
theorem outline_eq_ok {f : Folder} {p : Path} (hp : p.isYaml = false) {items : List Value}
    (h : f.outline p = .ok items) :
    items = [] ∨ f.value p = .ok (.list items) ∧ areLoopless items = true := by
  obtain ⟨v, hv, h⟩ := Fault.bind_eq_ok h
  have hloopless := isLoopless_value hp hv
  rw [Value.opened_of_isLoopless hloopless] at h
  cases v with
  | null => exact .inl (Except.ok.inj h).symm
  | list items' =>
    cases h
    exact .inr ⟨hv, hloopless⟩
  | _ => exact nomatch h

/-- An outline that is no YAML holds no list within itself. -/
theorem areTrees_outline {f : Folder} {p : Path} (hp : p.isYaml = false) {items : List Value}
    (h : f.outline p = .ok items) : areTrees items = true := by
  rcases outline_eq_ok hp h with rfl | ⟨-, hloopless⟩
  · rfl
  · exact Value.areTrees_of_areLoopless items hloopless

/-- Settings that are no YAML are empty or those of the dictionary of their file. -/
theorem settings_eq_ok {f : Folder} {label : String} {p : Path} (hp : p.isYaml = false)
    {entries : List (Value × Value)} (h : f.settings label p = .ok entries) :
    entries = [] ∨ f.value p = .ok (.dict entries) ∧ areLooplessEntries entries = true := by
  obtain ⟨v, hv, h⟩ := Fault.bind_eq_ok h
  have hloopless := isLoopless_value hp hv
  rw [Value.opened_of_isLoopless hloopless] at h
  cases v with
  | null => exact .inl (Except.ok.inj h).symm
  | dict entries' =>
    cases h
    exact .inr ⟨hv, hloopless⟩
  | _ => exact nomatch h

end Folder

/-! ## Settings -/

theorem setAll_faults {α : Type} [Setting α]
    (h : ∀ v : Value, OnlyFaults Fault.Reported (Setting.ofValue v : Except Fault α))
    (s : Settings α) (entries : List (Value × Value)) :
    OnlyFaults Fault.Reported (s.setAll (entries.map .ok)).1 := by
  induction entries generalizing s with
  | nil => exact .ok _
  | cons e entries ih =>
    have hset : OnlyFaults Fault.Reported (s.set e.1 e.2) := by
      refine (h e.2).bind fun a _ => .bind ?_ fun k _ => .ok _
      unfold canonicalKey
      split
      · exact ((plain_faults _).mono fun _ => .of_number).map _
      · exact ((plain_faults _).mono fun _ => .of_number).map _
    rw [List.map_cons, Settings.setAll]
    cases hs : s.set e.1 e.2 with
    | error x => exact .error (hset x hs)
    | ok t => exact ih t

theorem ofValue_faults {α : Type} [Setting α]
    (h : ∀ v : Value, OnlyFaults Fault.Reported (Setting.ofValue v : Except Fault α))
    (entries : List (Value × Value)) :
    OnlyFaults Fault.Reported (Settings.ofValue (.dict entries) : Except Fault (Settings α)) := by
  unfold Settings.ofValue
  split_ifs
  · exact (setAll_faults h _ entries).map _
  · exact .ok _

theorem choice_faults (v : Value) :
    OnlyFaults Fault.Reported (Setting.ofValue v : Except Fault Bool) := by
  cases v with
  | bool b => exact .ok b
  | _ =>
    refine .error (.of_value ?_)
    unfold Fault.showing
    split <;> rfl

theorem insertion_faults (v : Value) :
    OnlyFaults Fault.Reported (Setting.ofValue v : Except Fault String) := by
  cases v with
  | null => exact .ok ""
  | _ => exact (plain_faults _).mono fun _ => .of_number

/-- Settings fail for mistakes that are reported, or since a value cannot be shown. -/
theorem checkSettings_faults {α : Type} [Setting α]
    (h : ∀ v : Value, OnlyFaults Fault.Reported (Setting.ofValue v : Except Fault α)) (m : Machine)
    (entries : List (Value × Value)) :
    OnlyFaults (fun x => x.Reported ∨ x = .stackOverflow ∧ ∃ e ∈ entries, m.overflows e.2 = true)
      (m.checkSettings α (.dict entries)) := by
  refine .bind ((ofValue_faults h _).mono fun _ => .inl) fun _ _ => ?_
  split_ifs with hall
  · exact .ok _
  · obtain ⟨_, ⟨⟩, hdeep⟩ := Machine.exists_overflows_of_showsAll (Bool.eq_false_iff.2 hall)
    exact .error (.inr ⟨rfl, hdeep⟩)

/-! ## Numbering -/

/-- How a numbering may be of a shape that is not reported: something is no dictionary, or infinity
is a depth. -/
inductive Misshapen : Fault → Prop where
  | member (kind member : String) : Misshapen (.noMember kind member)
  | depth : Misshapen .infinityToInteger

/-- Whether an entry of the levels of a numbering is of their shape: a dictionary for a depth. -/
def Numbering.isLevel : Value × Value → Bool
  | (.float (.infinite _), _) => false
  | (_, level) => level.opened matches .dict _

/-- Whether the levels of a numbering, if there are any, are a dictionary of levels. -/
def Numbering.isShaped (entries : List (Value × Value)) : Bool :=
  let levels := (Value.entry? entries "levels").getD .null
  !levels.holds || match levels.opened with
    | .dict levels => levels.all isLevel
    | _ => false

theorem opened_of_entriesOf {member : String} {v : Value} {entries : List (Value × Value)}
    (h : Numbering.entriesOf member v = .ok entries) : v.opened = .dict entries := by
  unfold Numbering.entriesOf at h
  split at h
  · next hdict => rw [hdict, Except.ok.inj h]
  · exact nomatch h

theorem entriesOf_level_faults (e : Value × Value) :
    OnlyFaults (fun x => Misshapen x ∧ Numbering.isLevel e = false)
      (Numbering.entriesOf "get" e.2) := by
  unfold Numbering.entriesOf
  split
  · exact .ok _
  · next hother =>
    refine .error ⟨.member _ _, ?_⟩
    unfold Numbering.isLevel
    split
    · rfl
    · split
      · next entries hdict => exact absurd hdict (hother entries)
      · rfl

theorem depthOf_faults (e : Value × Value) :
    OnlyFaults (fun x => x.Reported ∨ Misshapen x ∧ Numbering.isLevel e = false)
      (Numbering.depthOf e.1) := by
  obtain ⟨key, level⟩ := e
  unfold Numbering.depthOf
  dsimp only
  split
  · exact .ok _
  · exact .ok _
  · split
    · exact .error (.inl rfl)
    · exact .error (.inr ⟨.depth, rfl⟩)
    · exact .ok _
  · split
    · exact .ok _
    · exact .error (.inl rfl)
    · exact .error (.inl rfl)
  · split
    · exact .ok _
    · exact .error (.inl rfl)
    · exact .error (.inl rfl)
  · exact .error (.inl rfl)

theorem styleNamed_faults (name : String) : OnlyFaults Fault.Reported (Level.styleNamed name) := by
  unfold Level.styleNamed
  split
  · exact .ok _
  · exact .error rfl

theorem make_faults (style format : String) :
    OnlyFaults Fault.Reported (Level.make style format) := by
  refine (styleNamed_faults style).bind fun _ _ => ?_
  split_ifs
  · exact .ok _
  · exact .error rfl

theorem set_faults (c : Numbering) (depth : Int) (level : Level) :
    OnlyFaults Fault.Reported (c.set depth level) := by
  refine .bind ?_ fun _ _ => .ok _
  unfold Numbering.checkDepth
  split_ifs
  · exact .error rfl
  · exact .ok _

/-- The values in a numbering that are put into text: the separator, and the styles and the formats
of its levels. -/
inductive Numbering.Spells (entries : List (Value × Value)) : Value → Prop where
  | separator {v : Value} : Value.entry? entries "separator" = some v → Spells entries v
  | member {levels v : Value} {es members : List (Value × Value)} {e : Value × Value} :
      Value.entry? entries "levels" = some levels → levels.opened = .dict es → e ∈ es →
      e.2.opened = .dict members →
      Value.entry? members "style" = some v ∨ Value.entry? members "format" = some v →
      Spells entries v

/-- A member of a dictionary is put into text unless it cannot be shown. -/
theorem machinePlain_faults (m : Machine) (entries : List (Value × Value)) (key default : String) :
    OnlyFaults (fun x => x.Reported ∨ x = .stackOverflow ∧
        ∃ v, Value.entry? entries key = some v ∧ m.overflows v = true)
      (m.plain ((Value.entry? entries key).getD (.text default))) := by
  unfold Machine.plain
  split_ifs with hdeep
  · cases hentry : Value.entry? entries key with
    | none =>
      rw [hentry] at hdeep
      exact nomatch hdeep
    | some v =>
      rw [hentry] at hdeep
      exact .error (.inr ⟨rfl, v, rfl, hdeep⟩)
  · exact (plain_faults _).mono fun _ h => .inl (.of_number h)

/-- How levels may fail: for mistakes that are reported, for a shape that is not that of levels, or
since a member cannot be shown. -/
def LevelsFault (m : Machine) (entries : List (Value × Value)) (x : Fault) : Prop :=
  x.Reported ∨ (Misshapen x ∧ entries.all Numbering.isLevel = false) ∨
    x = .stackOverflow ∧ ∃ e ∈ entries, ∃ members v, e.2.opened = .dict members ∧
      (Value.entry? members "style" = some v ∨ Value.entry? members "format" = some v) ∧
      m.overflows v = true

theorem addLevels_faults (m : Machine) (c : Numbering) (entries : List (Value × Value)) :
    OnlyFaults (LevelsFault m entries) (c.addLevels entries m.plain) := by
  induction entries generalizing c with
  | nil => exact .ok c
  | cons e rest ih =>
    have hshape : ∀ x, Misshapen x ∧ Numbering.isLevel e = false → LevelsFault m (e :: rest) x :=
      fun _ h => .inr (.inl ⟨h.1, by simp [h.2]⟩)
    have hrest : ∀ x, LevelsFault m rest x → LevelsFault m (e :: rest) x := by
      rintro x (h | h | ⟨h, f, hf, hshown⟩)
      · exact .inl h
      · exact .inr (.inl ⟨h.1, by simp [h.2]⟩)
      · exact .inr (.inr ⟨h, f, List.mem_cons_of_mem _ hf, hshown⟩)
    refine ((entriesOf_level_faults e).mono hshape).bind fun members hmembers => ?_
    have hdeep : ∀ key x, key = "style" ∨ key = "format" → (x.Reported ∨ x = .stackOverflow ∧
        ∃ v, Value.entry? members key = some v ∧ m.overflows v = true) →
        LevelsFault m (e :: rest) x := by
      rintro key x hkey (h | ⟨h, v, hv, hshown⟩)
      · exact .inl h
      · refine .inr (.inr ⟨h, e, List.mem_cons_self, members, v,
          opened_of_entriesOf hmembers, ?_, hshown⟩)
        rcases hkey with rfl | rfl
        · exact .inl hv
        · exact .inr hv
    refine ((machinePlain_faults m members "style" "decimal").mono fun x =>
      hdeep "style" x (.inl rfl)).bind fun style _ => ?_
    refine ((styleNamed_faults _).mono fun _ => .inl).bind fun _ _ => ?_
    refine ((machinePlain_faults m members "format" "#").mono fun x =>
      hdeep "format" x (.inr rfl)).bind fun format _ => ?_
    refine ((make_faults _ format).mono fun _ => .inl).bind fun level _ => ?_
    refine ((depthOf_faults e).mono fun x h => h.elim .inl (hshape x)).bind fun depth _ => ?_
    refine ((set_faults c depth level).mono fun _ => .inl).bind fun c' _ => ?_
    exact (ih c').mono hrest

/-- A numbering fails only for mistakes that are reported, unless it is of another shape or holds
what cannot be shown. -/
theorem numbering_faults (m : Machine) (entries : List (Value × Value)) :
    OnlyFaults (fun x => x.Reported ∨ (Misshapen x ∧ Numbering.isShaped entries = false) ∨
        x = .stackOverflow ∧ ∃ v, Numbering.Spells entries v ∧ m.overflows v = true)
      (Numbering.ofValue (.dict entries) m.plain) := by
  refine .bind (.ok entries) fun entries' hentries => ?_
  obtain rfl := Except.ok.inj hentries
  refine ((machinePlain_faults m entries "separator" ".").mono ?_).bind fun separator _ => ?_
  · rintro x (h | ⟨h, v, hv, hshown⟩)
    · exact .inl h
    · exact .inr (.inr ⟨h, v, .separator hv, hshown⟩)
  dsimp only
  split_ifs with hholds
  · unfold Numbering.isShaped
    dsimp only
    rw [hholds]
    cases hlevels : Value.entry? entries "levels" with
    | none =>
      rw [hlevels] at hholds
      exact nomatch hholds
    | some levels =>
      show OnlyFaults _ ((Numbering.entriesOf "items" levels).bind _)
      unfold Numbering.entriesOf
      rw [Option.getD_some]
      cases hopened : levels.opened with
      | dict es =>
        refine (addLevels_faults m _ es).mono ?_
        rintro x (h | h | ⟨h, e, he, members, v, hmembers, hv, hshown⟩)
        · exact .inl h
        · exact .inr (.inl h)
        · exact .inr (.inr ⟨h, v, .member hlevels hopened he hmembers hv, hshown⟩)
      | _ => exact .error (.inr (.inl ⟨.member _ _, rfl⟩))
  · exact .ok _

/-- All styles of a numbering that is read exist. -/
theorem styled_ofValue {v : Value} {plain : Value → Except Fault String} {c : Numbering}
    (h : Numbering.ofValue v plain = .ok c) : c.Styled := (Numbering.ordered_ofValue h).styled

/-! ## Writing -/

namespace Json

theorem writeText_faults (s : String) : OnlyFaults (·.category = .kind) (writeText s) := by
  unfold writeText
  split_ifs
  · exact .error rfl
  · exact .ok _

mutual

theorem writeAt_faults (pretty : Bool) (depth : Nat) :
    (v : Value) → OnlyFaults (·.category = .kind) (writeAt pretty depth v)
  | .null => by
    unfold writeAt
    exact .ok _
  | .bool b => by
    cases b <;> unfold writeAt <;> exact .ok _
  | .int n => by
    unfold writeAt writeInt
    split_ifs
    · exact .ok _
    · exact .error rfl
  | .float x => by
    unfold writeAt
    exact .ok _
  | .text s => by
    unfold writeAt
    exact writeText_faults s
  | .list items => by
    unfold writeAt
    split_ifs
    · exact .error rfl
    · exact (writeItems_faults pretty (depth + 1) items).map _
  | .tuple items => by
    unfold writeAt
    exact (writeItems_faults pretty (depth + 1) items).map _
  | .dict entries => by
    unfold writeAt
    split_ifs
    · exact .error rfl
    · exact (writeEntries_faults pretty (depth + 1) entries).map _
  | .date d => by
    unfold writeAt
    exact writeText_faults _
  | .moment t => by
    unfold writeAt
    exact writeText_faults _
  | .set _ | .constant _ | .bytes _ | .loop _ _ | .again _ => by
    unfold writeAt
    exact .error rfl

theorem writeItems_faults (pretty : Bool) (depth : Nat) :
    (items : List Value) → OnlyFaults (·.category = .kind) (writeItems pretty depth items)
  | [] => by
    unfold writeItems
    exact .ok _
  | v :: rest => by
    unfold writeItems
    exact (writeAt_faults pretty depth v).bind fun _ _ =>
      (writeItems_faults pretty depth rest).bind fun _ _ => .ok _

theorem writeEntries_faults (pretty : Bool) (depth : Nat) :
    (entries : List (Value × Value)) →
      OnlyFaults (·.category = .kind) (writeEntries pretty depth entries)
  | [] => by
    unfold writeEntries
    exact .ok _
  | (k, v) :: rest => by
    unfold writeEntries
    split
    · exact (writeText_faults _).bind fun _ _ => (writeAt_faults pretty depth v).bind fun _ _ =>
        (writeEntries_faults pretty depth rest).bind fun _ _ => .ok _
    · exact .error rfl

end

theorem write_faults (pretty : Bool) (v : Value) : OnlyFaults Fault.Reported (write pretty v) :=
  ((writeAt_faults pretty 0 v).mono fun _ => .of_kind).map _

end Json

namespace Yaml

theorem writeItems_append (indent : Nat) (items items' : List Value) (p : Pen) :
    writeItems indent (items ++ items') p =
      (writeItems indent items p >>= writeItems indent items') := by
  induction items generalizing p with
  | nil =>
    rw [List.nil_append, writeItems]
    rfl
  | cons v items ih =>
    rw [List.cons_append, writeItems, writeItems]
    cases writeNode (some indent) .item v ((p.indentTo indent).mark ['-'] true true) with
    | error e => rfl
    | ok q => exact ih q

theorem exists_writeText (indent : Nat) (s : String) (p : Pen) :
    ∃ q, writeItems indent [.text s] p = .ok q := by
  unfold writeItems writeNode writeItems
  exact ⟨_, rfl⟩

theorem exists_writeNested {items : List Value} (indent : Nat)
    (h : ∀ indent p, ∃ q, writeItems indent items p = .ok q) (p : Pen) :
    ∃ q, writeItems indent (nestedItems items) p = .ok q := by
  cases items with
  | nil => exact h indent p
  | cons v rest =>
    show ∃ q, writeItems indent [.list (v :: rest)] p = .ok q
    rw [writeItems, writeNode]
    obtain ⟨q, hq⟩ := h (listIndent (some indent) .item ((p.indentTo indent).mark ['-'] true true))
      ((p.indentTo indent).mark ['-'] true true)
    rw [hq]
    refine ⟨q, ?_⟩
    show writeItems indent [] q = _
    rw [writeItems]

/-- The items of an outline by import texts can be written. -/
theorem exists_writeItems (f : Forest) (indent : Nat) (p : Pen) :
    ∃ q, writeItems indent f.sourceItems p = .ok q := by
  induction f generalizing indent p with
  | nil =>
    refine ⟨p, ?_⟩
    show writeItems indent [] p = _
    rw [writeItems]
  | cons id fields below rest ih₁ ih₂ =>
    obtain ⟨p₁, h₁⟩ := exists_writeText indent fields.source p
    obtain ⟨p₂, h₂⟩ := exists_writeNested indent ih₁ p₁
    obtain ⟨p₃, h₃⟩ := ih₂ indent p₂
    refine ⟨p₃, ?_⟩
    show writeItems indent ([.text fields.source] ++
      (nestedItems below.sourceItems ++ rest.sourceItems)) p = _
    rw [writeItems_append, h₁]
    show writeItems indent (nestedItems below.sourceItems ++ rest.sourceItems) p₁ = _
    rw [writeItems_append, h₂]
    exact h₃

/-- An outline by import texts can be written. -/
theorem exists_write (f : Forest) : ∃ text, write (.list f.sourceItems) = .ok text := by
  have hnode : ∃ q, writeNode none .root (.list f.sourceItems) {} = .ok q := by
    cases hitems : f.sourceItems with
    | nil =>
      unfold writeNode
      exact ⟨_, rfl⟩
    | cons v rest =>
      rw [writeNode]
      exact hitems ▸ exists_writeItems f _ _
  obtain ⟨q, hq⟩ := hnode
  unfold write
  rw [hq]
  exact ⟨_, rfl⟩

end Yaml

/-- A document whose numbers can be written is written, or it holds what JSON cannot, or the stack
runs out. -/
theorem render_faults (m : Machine) (r : Request) {d : Document} {f : Forest}
    (h : d.store.Shows f) (hd : d.numbering.Styled) :
    OnlyFaults (fun x => x.Reported ∨ x = .stackOverflow ∧
        m.overflowsWriting r.format (CommandLine.viewOf r d) d.store.shape = true)
      (CommandLine.render m r d) := by
  have houtline : ∃ items, d.outline .display r.withNumbers = .ok items := by
    obtain ⟨S, hS⟩ := h.exists_scene (v := d.view r.withNumbers) (.inr hd)
    refine ⟨S.items, ?_⟩
    unfold Document.outline
    rw [Store.outline_eq_items, hS]
    rfl
  unfold CommandLine.render
  split_ifs with hdeep
  · exact .error (.inr ⟨rfl, hdeep⟩)
  · refine OnlyFaults.mono (P := Fault.Reported) ?_ fun _ => .inl
    cases r.format with
    | outline =>
      obtain ⟨items, hitems⟩ := houtline
      dsimp only
      rw [hitems]
      exact Json.write_faults true _
    | html =>
      obtain ⟨markup, hmarkup⟩ := h.exists_html (v := d.view (!r.plainMarkup)) (.inr hd)
      dsimp only
      unfold Document.html
      rw [hmarkup]
      exact .ok _
    | yaml =>
      obtain ⟨text, htext⟩ := Yaml.exists_write f
      dsimp only
      rw [h.sourceOutline_eq]
      show OnlyFaults _ (Yaml.write (.list f.sourceItems))
      rw [htext]
      exact .ok _
    | json =>
      dsimp only
      rw [h.sourceOutline_eq]
      exact Json.write_faults true _

end Bylaws
