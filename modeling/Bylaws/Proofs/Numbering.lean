import Bylaws.Numbering
import Bylaws.Proofs.Decimal
import Bylaws.Proofs.Fault
import Bylaws.Proofs.Numeral
import Mathlib.Tactic.SplitIfs

/-!
# Numberings as data

However a numbering has been loaded and changed, its levels stand in increasing depth, from one
upward, with styles that exist and formats that have a place for the rank (`Numbering.Ordered`).
Such a numbering is loaded again from its data just as it was, gaps between the levels included, and
so it writes and joins all numbers as before (`Numbering.saved_loaded`).
-/

namespace Bylaws

/-! ## Levels -/

theorem Style.name_of_ofName? {name : String} {style : Style} (h : ofName? name = some style) :
    style.name = name := by
  simpa using List.find?_some h

/-- The names of styles are written in small letters. -/
theorem Style.lower_name (style : Style) : Text.lower style.name.toList = style.name.toList := by
  cases style <;> decide +kernel

namespace Level

/-- The style of a level exists, and its format has a place for the rank. -/
structure Valid (l : Level) : Prop where
  styled : (Style.ofName? l.style).isSome = true
  marked : '#' ∈ l.format.toList

theorem Valid.exists_style {l : Level} (h : l.Valid) : ∃ style : Style, l.style = style.name := by
  obtain ⟨style, hs⟩ := Option.isSome_iff_exists.1 h.styled
  exact ⟨style, (Style.name_of_ofName? hs).symm⟩

theorem valid_default : Valid {} := ⟨by decide, by decide⟩

theorem make_eq_ok_iff {style format : String} {l : Level} :
    make style format = .ok l ↔ l = ⟨style, format⟩ ∧ l.Valid := by
  unfold make styleNamed
  cases hs : Style.ofName? style with
  | none =>
    refine ⟨fun h => (nomatch h), ?_⟩
    rintro ⟨rfl, h⟩
    have hsome := h.styled
    rw [hs] at hsome
    exact nomatch hsome
  | some s =>
    show (if format.toList.contains '#' then _ else _) = _ ↔ _
    split_ifs with hmark
    · rw [List.contains_iff_mem] at hmark
      refine ⟨fun h => ?_, fun h => congrArg _ h.1.symm⟩
      cases h
      exact ⟨rfl, by rw [hs]; rfl, hmark⟩
    · refine ⟨fun h => (nomatch h), ?_⟩
      rintro ⟨rfl, h⟩
      exact absurd (List.contains_iff_mem.2 h.marked) hmark

theorem exists_render {l : Level} (h : (Style.ofName? l.style).isSome = true) (n : Int) :
    ∃ text, l.render n = .ok text := by
  obtain ⟨style, hs⟩ := Option.isSome_iff_exists.1 h
  unfold render styleNamed
  rw [hs]
  exact ⟨_, rfl⟩

/-- An integer within the limit of digits is written as a rank is. -/
theorem renderInt_eq_render (l : Level) {n : Int} (h : Decimal.isTooLong n = false) :
    l.renderInt n = l.render n := by
  unfold renderInt render
  cases styleNamed l.style with
  | error e => rfl
  | ok style =>
    show (do
      let numeral ← style.text n
      Except.ok (String.ofList (fillMark numeral.toList l.format.toList))) = _
    rw [style.text_eq, h, Bool.and_false]
    rfl

/-- Beyond the limit of digits only numbers in letters are written. -/
theorem exists_renderInt {l : Level} (h : (Style.ofName? l.style).isSome = true) (n : Int) :
    (∃ text, l.renderInt n = .ok text) ∨
      Decimal.isTooLong n = true ∧ l.renderInt n = .error .integerUnwritable := by
  obtain ⟨style, hs⟩ := Option.isSome_iff_exists.1 h
  unfold renderInt styleNamed
  rw [hs]
  show (∃ text, (do
    let numeral ← style.text n
    Except.ok (String.ofList (fillMark numeral.toList l.format.toList))) = Except.ok text) ∨ _ ∧
    (do
      let numeral ← style.text n
      Except.ok (String.ofList (fillMark numeral.toList l.format.toList))) = _
  rw [style.text_eq]
  split_ifs with hlong
  · exact .inr ⟨((Bool.and_eq_true _ _).mp hlong).2, rfl⟩
  · exact .inl ⟨_, rfl⟩

end Level

namespace Numbering

variable {c c' : Numbering} {depth : Int} {level : Level}

/-! ## Numbers that can be written -/

/-- All styles of a numbering exist. -/
def Styled (c : Numbering) : Prop :=
  ∀ e ∈ c.levels, (Style.ofName? e.2.style).isSome = true

instance (c : Numbering) : Decidable c.Styled :=
  inferInstanceAs (Decidable (∀ e ∈ c.levels, (Style.ofName? e.2.style).isSome = true))

/-- The rule at a depth has a style that exists, and a format of one of the levels or the plain
one. -/
theorem Styled.exists_levelAt (h : c.Styled) (depth : Int) :
    ∃ l, c.levelAt depth = .ok l ∧ (Style.ofName? l.style).isSome = true ∧
      (l.format = "#" ∨ ∃ e ∈ c.levels, e.2 = l) := by
  unfold levelAt
  cases hl : c.level? depth with
  | some l =>
    obtain ⟨e, he, rfl⟩ := Option.map_eq_some_iff.1 hl
    have hmem := List.mem_of_find?_eq_some he
    exact ⟨_, rfl, h e hmem, .inr ⟨e, hmem, rfl⟩⟩
  | none =>
    cases hlast : (c.levels.filter fun e => e.1 < depth).getLast? with
    | none => exact ⟨_, rfl, by decide, .inl rfl⟩
    | some e =>
      have hstyle := h e (List.mem_filter.1 (List.mem_of_getLast? hlast)).1
      obtain ⟨style, hs⟩ := Option.isSome_iff_exists.1 hstyle
      refine ⟨⟨e.2.style, "#"⟩, ?_, hstyle, .inl rfl⟩
      show Level.make e.2.style "#" = _
      unfold Level.make Level.styleNamed
      rw [hs]
      rfl

theorem Styled.exists_number (h : c.Styled) (n depth : Int) :
    ∃ text, c.number n depth = .ok text := by
  obtain ⟨l, hl, hstyle, -⟩ := h.exists_levelAt depth
  unfold number
  rw [hl]
  exact Level.exists_render hstyle n

/-- Every integer can be written at every depth, or has too many digits. -/
theorem Styled.exists_numberInt (h : c.Styled) (n depth : Int) :
    (∃ text, c.numberInt n depth = .ok text) ∨
      Decimal.isTooLong n = true ∧ c.numberInt n depth = .error .integerUnwritable := by
  obtain ⟨l, hl, hstyle, -⟩ := h.exists_levelAt depth
  unfold numberInt
  rw [hl]
  exact Level.exists_renderInt hstyle n

theorem numberInt_eq_number (c : Numbering) {n : Int} (h : Decimal.isTooLong n = false)
    (depth : Int) : c.numberInt n depth = c.number n depth := by
  unfold numberInt number
  cases c.levelAt depth with
  | error e => rfl
  | ok l => exact l.renderInt_eq_render h

/-! ## Levels in order -/

/-- The levels of a numbering are valid and stand in increasing depth, from one upward. -/
structure Ordered (c : Numbering) : Prop where
  increasing : c.levels.Pairwise (·.1 < ·.1)
  positive : ∀ e ∈ c.levels, 1 ≤ e.1
  valid : ∀ e ∈ c.levels, e.2.Valid

theorem Ordered.styled (h : c.Ordered) : c.Styled := fun e he => (h.valid e he).styled

theorem ordered_empty (separator : String) (innermostOnly : Bool) :
    Ordered { separator, innermostOnly } where
  increasing := .nil
  positive := fun _ he => absurd he List.not_mem_nil
  valid := fun _ he => absurd he List.not_mem_nil

theorem mem_put {levels : List (Int × Level)} {e : Int × Level} (h : e ∈ put depth level levels) :
    e = (depth, level) ∨ e ∈ levels := by
  induction levels with
  | nil => exact .inl (List.mem_singleton.1 h)
  | cons f rest ih =>
    unfold put at h
    split_ifs at h with hlt heq
    · exact List.mem_cons.1 h
    · rcases List.mem_cons.1 h with rfl | h
      · exact .inl (by rw [heq])
      · exact .inr (List.mem_cons_of_mem _ h)
    · rcases List.mem_cons.1 h with rfl | h
      · exact .inr List.mem_cons_self
      · exact (ih h).imp_right (List.mem_cons_of_mem _)

theorem pairwise_put {levels : List (Int × Level)} (h : levels.Pairwise (·.1 < ·.1)) :
    (put depth level levels).Pairwise (·.1 < ·.1) := by
  induction levels with
  | nil => exact List.pairwise_singleton _ _
  | cons e rest ih =>
    obtain ⟨he, hrest⟩ := List.pairwise_cons.1 h
    unfold put
    split_ifs with hlt heq
    · refine List.pairwise_cons.2 ⟨fun f hf => ?_, h⟩
      rcases List.mem_cons.1 hf with rfl | hf
      · exact hlt
      · exact hlt.trans (he f hf)
    · exact List.pairwise_cons.2 ⟨he, hrest⟩
    · refine List.pairwise_cons.2 ⟨fun f hf => ?_, ih hrest⟩
      rcases mem_put hf with rfl | hf
      · show e.1 < depth
        omega
      · exact he f hf

/-- A level deeper than all others comes last. -/
theorem put_last {levels : List (Int × Level)} (h : ∀ e ∈ levels, e.1 < depth) :
    put depth level levels = levels ++ [(depth, level)] := by
  induction levels with
  | nil => rfl
  | cons e rest ih =>
    obtain ⟨he, hrest⟩ := List.forall_mem_cons.1 h
    unfold put
    rw [if_neg (by omega), if_neg (by omega), ih hrest]
    rfl

theorem checkDepth_eq_ok_iff : checkDepth depth = .ok () ↔ 1 ≤ depth := by
  unfold checkDepth
  split_ifs with h
  · exact ⟨fun he => (nomatch he), fun hle => by omega⟩
  · exact ⟨fun _ => by omega, fun _ => rfl⟩

theorem set_eq_ok_iff :
    c.set depth level = .ok c' ↔ 1 ≤ depth ∧ c' = { c with levels := put depth level c.levels } := by
  rw [← checkDepth_eq_ok_iff]
  unfold set
  cases checkDepth depth with
  | error e => exact ⟨fun h => (nomatch h), fun h => (nomatch h.1)⟩
  | ok => exact ⟨fun h => ⟨rfl, (Except.ok.inj h).symm⟩, fun h => congrArg _ h.2.symm⟩

/-- Storing a valid level keeps the order. -/
theorem Ordered.put (h : c.Ordered) (hd : 1 ≤ depth) (hl : level.Valid) :
    Ordered { c with levels := Numbering.put depth level c.levels } where
  increasing := pairwise_put h.increasing
  positive := fun e he => (mem_put he).elim (fun heq => heq ▸ hd) (h.positive e)
  valid := fun e he => (mem_put he).elim (fun heq => heq ▸ hl) (h.valid e)

/-- Looking a level up answers a valid level of a numbering that has it. -/
theorem Ordered.touch (h : c.Ordered) (ht : c.touch depth = .ok (level, c')) :
    1 ≤ depth ∧ level.Valid ∧ c'.Ordered := by
  obtain ⟨_, hd, ht⟩ := Fault.bind_eq_ok ht
  rw [checkDepth_eq_ok_iff] at hd
  refine ⟨hd, ?_⟩
  cases hl : c.level? depth with
  | some l =>
    rw [hl] at ht
    cases ht
    obtain ⟨e, he, rfl⟩ := Option.map_eq_some_iff.1 hl
    exact ⟨h.valid e (List.mem_of_find?_eq_some he), h⟩
  | none =>
    rw [hl] at ht
    cases ht
    exact ⟨Level.valid_default, h.put hd Level.valid_default⟩

theorem Ordered.addLevels {entries : List (Value × Value)} {plain : Value → Except Fault String}
    (h : c.Ordered) (ha : c.addLevels entries plain = .ok c') : c'.Ordered := by
  induction entries generalizing c with
  | nil =>
    cases ha
    exact h
  | cons e rest ih =>
    obtain ⟨_, -, ha⟩ := Fault.bind_eq_ok ha
    obtain ⟨_, -, ha⟩ := Fault.bind_eq_ok ha
    obtain ⟨_, -, ha⟩ := Fault.bind_eq_ok ha
    obtain ⟨_, -, ha⟩ := Fault.bind_eq_ok ha
    obtain ⟨level, hmake, ha⟩ := Fault.bind_eq_ok ha
    obtain ⟨depth, -, ha⟩ := Fault.bind_eq_ok ha
    obtain ⟨_, hset, ha⟩ := Fault.bind_eq_ok ha
    obtain ⟨hd, rfl⟩ := set_eq_ok_iff.1 hset
    exact ih (h.put hd (Level.make_eq_ok_iff.1 hmake).2) ha

/-- A numbering that is loaded is in order. -/
theorem ordered_ofValue {v : Value} {plain : Value → Except Fault String}
    (h : ofValue v plain = .ok c) : c.Ordered := by
  obtain ⟨_, -, h⟩ := Fault.bind_eq_ok h
  obtain ⟨_, -, h⟩ := Fault.bind_eq_ok h
  dsimp only at h
  split_ifs at h
  · obtain ⟨_, -, h⟩ := Fault.bind_eq_ok h
    exact (ordered_empty _ _).addLevels h
  · cases h
    exact ordered_empty _ _

/-! ## Loading and changing -/

/-- What is done to a numbering: it is loaded from data, a level is looked up and made where there is
none, stored, or given another style or format. -/
inductive Change where
  | load (v : Value)
  | access (depth : Int)
  | put (depth : Int) (style format : String)
  | assign (depth : Int) (style : Option Style) (format : Option { s : String // '#' ∈ s.toList })

namespace Change

def apply (c : Numbering) : Change → Except Fault Numbering
  | load v => ofValue v
  | access depth => (c.touch depth).map (·.2)
  | put depth style format => do c.set depth (← Level.make style format)
  | assign depth style format => c.assign depth (style.map (·.name)) (format.map (·.1))

/-- The numbering after a change, which leaves it as it was if it fails. -/
def perform (c : Numbering) (change : Change) : Numbering :=
  match change.apply c with
  | .ok c' => c'
  | .error _ => c

end Change

/-- The numbering that some changes in a row make of the plain one. -/
def changed (changes : List Change) : Numbering := changes.foldl Change.perform {}

theorem Ordered.apply (h : c.Ordered) {change : Change} (ha : change.apply c = .ok c') :
    c'.Ordered := by
  cases change with
  | load v => exact ordered_ofValue ha
  | access depth =>
    obtain ⟨⟨level, c'⟩, ht, rfl⟩ := Fault.map_eq_ok ha
    exact (h.touch ht).2.2
  | put depth style format =>
    obtain ⟨level, hmake, hset⟩ := Fault.bind_eq_ok ha
    obtain ⟨hd, rfl⟩ := set_eq_ok_iff.1 hset
    exact h.put hd (Level.make_eq_ok_iff.1 hmake).2
  | assign depth style format =>
    obtain ⟨⟨level, c₁⟩, ht, ha⟩ := Fault.bind_eq_ok ha
    obtain ⟨hd, hl, hc₁⟩ := h.touch ht
    cases ha
    refine hc₁.put hd ⟨?_, ?_⟩
    · cases style with
      | none => exact hl.styled
      | some style =>
        show (Style.ofName? style.name).isSome = true
        rw [Style.ofName?_name]
        rfl
    · cases format with
      | none => exact hl.marked
      | some format => exact format.2

theorem Ordered.perform (h : c.Ordered) (change : Change) : (change.perform c).Ordered := by
  unfold Change.perform
  split
  · next ha => exact h.apply ha
  · exact h

theorem ordered_changed (changes : List Change) : (changed changes).Ordered := by
  have key : ∀ c : Numbering, c.Ordered → (changes.foldl Change.perform c).Ordered := by
    induction changes with
    | nil => exact fun _ h => h
    | cons change changes ih => exact fun c h => ih _ (h.perform change)
  exact key _ (ordered_empty _ _)

/-! ## Saving -/

/-- A level as data. -/
def fields (l : Level) : List (Value × Value) :=
  [(.text "style", .text l.style), (.text "format", .text l.format)]

/-- The entry of a level whose depth can be written. -/
def entry (e : Int × Level) : Value × Value :=
  (.text (Decimal.intText e.1), .dict (fields e.2))

/-- A numbering whose depths can be written as data. -/
def data (c : Numbering) : List (Value × Value) :=
  [(.text "separator", .text c.separator), (.text "innermost_only", .bool c.innermostOnly),
    (.text "levels", .dict (c.levels.map entry))]

theorem levelEntry_eq (e : Int × Level) :
    levelEntry e =
      if Decimal.isTooLong e.1 then .error .integerUnwritable else .ok (entry e) := by
  unfold levelEntry Value.intText
  split_ifs <;> rfl

/-- The data of a numbering, if all its depths can be written. -/
theorem toValue_eq (c : Numbering) :
    c.toValue = if c.levels.any fun e => Decimal.isTooLong e.1 then .error .integerUnwritable
      else .ok (.dict c.data) := by
  unfold toValue
  rw [Fault.mapM_eq_ite levelEntry_eq]
  split_ifs <;> rfl

/-- A numbering whose depths can be written is saved. -/
theorem toValue_of_short (h : ∀ e ∈ c.levels, Decimal.isTooLong e.1 = false) :
    c.toValue = .ok (.dict c.data) := by
  rw [toValue_eq, if_neg (by simpa using h)]

theorem depthOf_intText (h : Decimal.isTooLong depth = false) :
    depthOf (.text (Decimal.intText depth)) = .ok depth := by
  have hread := Decimal.readInt_intText h
  unfold depthOf
  dsimp only
  rw [hread]

theorem entry?_style (l : Level) : Value.entry? (fields l) "style" = some (.text l.style) := by
  simp [Value.entry?, Value.sameKey, fields]

theorem entry?_format (l : Level) : Value.entry? (fields l) "format" = some (.text l.format) := by
  simp [Value.entry?, Value.sameKey, fields]

/-- The entry of a level is read as that level, at the depth that its key is read as. -/
theorem addLevels_entry {e : Int × Level} (hvalid : e.2.Valid) (rest : List (Value × Value)) :
    c.addLevels (entry e :: rest) =
      (do (← c.set (← depthOf (.text (Decimal.intText e.1))) e.2).addLevels rest) := by
  obtain ⟨style, hstyle⟩ := hvalid.exists_style
  have hlower : String.ofList (Text.lower e.2.style.toList) = e.2.style := by
    rw [hstyle, Style.lower_name, String.ofList_toList]
  have hnamed : Level.styleNamed e.2.style = .ok style := by
    unfold Level.styleNamed
    rw [hstyle, Style.ofName?_name]
  have hmake : Level.make e.2.style e.2.format = .ok e.2 := Level.make_eq_ok_iff.2 ⟨rfl, hvalid⟩
  show (do
    let style ← ((Value.entry? (fields e.2) "style").getD (.text "decimal")).plain
    let style := String.ofList (Text.lower style.toList)
    let _ ← Level.styleNamed style
    let format ← ((Value.entry? (fields e.2) "format").getD (.text "#")).plain
    let level ← Level.make style format
    (← c.set (← depthOf (.text (Decimal.intText e.1))) level).addLevels rest) = _
  rw [entry?_style, entry?_format]
  show (do
    let _ ← Level.styleNamed (String.ofList (Text.lower e.2.style.toList))
    let level ← Level.make (String.ofList (Text.lower e.2.style.toList)) e.2.format
    (← c.set (← depthOf (.text (Decimal.intText e.1))) level).addLevels rest) = _
  rw [hlower, hnamed, hmake]
  rfl

/-- The entries of levels in increasing depth are read one after the other, each as the last. -/
theorem addLevels_map_entry {levels : List (Int × Level)}
    (hinc : (c.levels ++ levels).Pairwise (·.1 < ·.1))
    (h : ∀ e ∈ levels, 1 ≤ e.1 ∧ e.2.Valid ∧ Decimal.isTooLong e.1 = false) :
    c.addLevels (levels.map entry) = .ok { c with levels := c.levels ++ levels } := by
  induction levels generalizing c with
  | nil =>
    rw [List.append_nil]
    rfl
  | cons e rest ih =>
    obtain ⟨⟨hpos, hvalid, hshort⟩, hrest⟩ := List.forall_mem_cons.1 h
    have hlast : ∀ f ∈ c.levels, f.1 < e.1 := fun f hf =>
      (List.pairwise_append.1 hinc).2.2 f hf e List.mem_cons_self
    have hset : c.set e.1 e.2 = .ok { c with levels := c.levels ++ [e] } := by
      rw [set_eq_ok_iff, put_last hlast]
      exact ⟨hpos, rfl⟩
    rw [List.map_cons, addLevels_entry hvalid, depthOf_intText hshort]
    show (do (← c.set e.1 e.2).addLevels (rest.map entry)) = _
    rw [hset]
    show addLevels { c with levels := c.levels ++ [e] } (rest.map entry) = _
    rw [ih (by rwa [List.append_assoc]) hrest, List.append_assoc]
    rfl

theorem ofValue_data (c : Numbering) :
    ofValue (.dict c.data) =
      if (Value.dict (c.levels.map entry)).holds then
        addLevels { separator := c.separator, innermostOnly := c.innermostOnly }
          (c.levels.map entry)
      else .ok { separator := c.separator, innermostOnly := c.innermostOnly } := by
  have hseparator : Value.entry? c.data "separator" = some (.text c.separator) := by
    simp [Value.entry?, Value.sameKey, data]
  have hinnermost : Value.entry? c.data "innermost_only" = some (.bool c.innermostOnly) := by
    simp [Value.entry?, Value.sameKey, data]
  have hlevels : Value.entry? c.data "levels" = some (.dict (c.levels.map entry)) := by
    simp [Value.entry?, Value.sameKey, data]
  show (do
    let separator ← ((Value.entry? c.data "separator").getD (.text ".")).plain
    let innermostOnly := ((Value.entry? c.data "innermost_only").getD (.bool false)).holds
    let levels := (Value.entry? c.data "levels").getD .null
    let c : Numbering := { separator, innermostOnly }
    if levels.holds then c.addLevels (← entriesOf "items" levels) else .ok c) = _
  rw [hseparator, hinnermost, hlevels]
  rfl

/-- A numbering in order is loaded again just as it was saved. -/
theorem Ordered.ofValue_data (h : c.Ordered)
    (hshort : ∀ e ∈ c.levels, Decimal.isTooLong e.1 = false) : ofValue (.dict c.data) = .ok c := by
  rw [Numbering.ofValue_data]
  split_ifs with hholds
  · exact addLevels_map_entry h.increasing
      fun e he => ⟨h.positive e he, h.valid e he, hshort e he⟩
  · have hnil : c.levels = [] := by simpa [Value.holds] using hholds
    obtain ⟨levels, separator, innermostOnly⟩ := c
    exact congrArg _ (by rw [show levels = [] from hnil])

/-- Whatever has been done to a numbering, it is saved as data if its depths have no more digits
than can be written. What is loaded from the data has the same data again, and writes every integer at
every depth, and joins all numbers, as before. Only integers of too many digits are not written. -/
theorem saved_loaded (changes : List Change)
    (h : ∀ e ∈ (changed changes).levels, Decimal.isTooLong e.1 = false) :
    let c := changed changes
    ∃ v c', c.toValue = .ok v ∧ ofValue v = .ok c' ∧ c'.toValue = .ok v ∧
      (∀ n depth, c'.numberInt n depth = c.numberInt n depth ∧
        ((∃ text, c.numberInt n depth = .ok text) ∨
          Decimal.isTooLong n = true ∧ c.numberInt n depth = .error .integerUnwritable)) ∧
      ∀ parts, c'.join parts = c.join parts := by
  intro c
  have hc : c.Ordered := ordered_changed changes
  have hv : c.toValue = .ok (.dict c.data) := toValue_of_short h
  exact ⟨_, c, hv, hc.ofValue_data h, hv, fun n depth =>
    ⟨rfl, hc.styled.exists_numberInt n depth⟩, fun _ => rfl⟩

/-- Levels at three depths, with a gap between them: one made by looking it up, one stored, and one
changed in its place. -/
def gapped : List Change :=
  [.access 2, .put 4 "upper_roman" "(#)", .assign 1 (some .lowerAlpha) none]

theorem saved_loaded_gapped :
    ∃ v c', (changed gapped).toValue = .ok v ∧ ofValue v = .ok c' ∧ c'.toValue = .ok v ∧
      v = .dict (changed gapped).data ∧ c'.numberInt 4 4 = .ok "(IV)" ∧
      c'.numberInt 3 3 = .ok "3" ∧ c'.numberInt 7 9 = .ok "VII" ∧ c'.join ["a", "1"] = "a.1" := by
  have hshort : ∀ e ∈ (changed gapped).levels, Decimal.isTooLong e.1 = false := by decide +kernel
  obtain ⟨v, c', hv, hc', hv', hnumber, hjoin⟩ := saved_loaded gapped hshort
  have hdata := Except.ok.inj (hv.symm.trans (toValue_of_short hshort))
  refine ⟨v, c', hv, hc', hv', hdata, ?_, ?_, ?_, hjoin _⟩
  · rw [(hnumber 4 4).1, numberInt_eq_number _ (by decide +kernel)]
    rfl
  · rw [(hnumber 3 3).1, numberInt_eq_number _ (by decide +kernel)]
    rfl
  · rw [(hnumber 7 9).1, numberInt_eq_number _ (by decide +kernel)]
    rfl

theorem changed_access (h : 1 ≤ depth) : changed [.access depth] = { levels := [(depth, {})] } := by
  have hcheck := checkDepth_eq_ok_iff.2 h
  show (match ((touch {} depth).map (·.2)) with
    | .ok c' => c'
    | .error _ => {}) = _
  unfold touch
  rw [hcheck]
  rfl

/-- Data with a depth of too many digits is not loaded. -/
theorem ofValue_data_tooLong {count : Nat}
    (h : Decimal.readInt (Decimal.intText depth).toList = .error (.tooLong count)) :
    ofValue (.dict (data { levels := [(depth, {})] })) = .error (.integerTooLong count) := by
  have hdepth : depthOf (.text (Decimal.intText depth)) = .error (.integerTooLong count) := by
    unfold depthOf
    dsimp only
    rw [h]
  have hholds : (Value.dict [entry (depth, {})]).holds = true := rfl
  have hread : addLevels {} [entry (depth, {})] = .error (.integerTooLong count) := by
    rw [addLevels_entry Level.valid_default, hdepth]
    rfl
  rw [ofValue_data]
  exact (if_pos hholds).trans hread

/-- A level can be made at a depth that has too many digits to be saved, and data in which it stood
would not be loaded. -/
theorem not_saved_beyondLimit :
    (changed [.access Decimal.beyondLimit]).levels = [(Decimal.beyondLimit, {})] ∧
      (changed [.access Decimal.beyondLimit]).toValue = .error .integerUnwritable ∧
      ofValue (.dict (changed [.access Decimal.beyondLimit]).data) =
        .error (.integerTooLong (Decimal.digitLimit + 1)) := by
  have hpos : 1 ≤ Decimal.beyondLimit := by
    have h : 0 < 10 ^ Decimal.digitLimit := Nat.pow_pos (by omega)
    unfold Decimal.beyondLimit
    omega
  have hlong := Decimal.isTooLong_beyondLimit
  have hread := Decimal.readInt_intText_of_isTooLong hlong
  rw [Decimal.length_toDigits_beyondLimit] at hread
  rw [changed_access hpos]
  refine ⟨rfl, ?_, ofValue_data_tooLong hread⟩
  rw [toValue_eq, List.any_cons, hlong, Bool.true_or, if_pos rfl]

end Numbering

end Bylaws
