import Bylaws.Proofs.Directive
import Bylaws.Proofs.Forest.Lines
import Bylaws.Proofs.Reimport

/-!
# Normal forms of outlines

An outline that has been imported is exported in normal form (`Document.ofOutline_sourceOutline`).
The normal form of a list is given by recursion over it, without a store: each element that is not
a list becomes its text, with the tokens in canonical form, and what the lists right behind it
hold, put together, follows as one list in normal form, unless there is nothing in it. The proof
reads the forest that the import makes off the elements: elements and lines correspond, and the
depths tell which of them are below the first (`sourceItems_eq_normalItems`).
-/

namespace Bylaws

open Forest

/-! ## Normal forms -/

namespace Value

/-- The elements of an element that is a list. A list around it holds nothing further. -/
def nested? : Value → Option (List Value)
  | list items => some items
  | tuple items => some items
  | loop _ v => v.nested?
  | again _ => some []
  | _ => none

/-- The text of an element that is not a list, in canonical form. -/
def normalText : Value → String
  | loop _ v => v.normalText
  | v => canonicalText (v.plain?.getD "")

mutual

/-- The number of parts of a value that an import goes through. -/
def weight : Value → Nat
  | list items => weightIn items + 1
  | tuple items => weightIn items + 1
  | loop _ v => v.weight
  | _ => 1

def weightIn : List Value → Nat
  | [] => 0
  | v :: rest => v.weight + weightIn rest

end

@[simp] theorem weightIn_cons (v : Value) (rest : List Value) :
    weightIn (v :: rest) = v.weight + weightIn rest := rfl

theorem weight_pos (v : Value) : 0 < v.weight := by
  induction v using nested?.induct with
  | case3 label v ih => exact ih
  | _ => simp [weight]

end Value

/-- What the lists at the head of some elements hold, put together. -/
def leadingItems : List Value → List Value
  | [] => []
  | v :: rest =>
    match v.nested? with
    | some items => items ++ leadingItems rest
    | none => []

/-- Some elements without the lists at their head. -/
def afterLists : List Value → List Value
  | [] => []
  | v :: rest => if v.nested?.isSome then afterLists rest else v :: rest

theorem Value.weightIn_append (items items' : List Value) :
    weightIn (items ++ items') = weightIn items + weightIn items' := by
  induction items with
  | nil => exact (Nat.zero_add _).symm
  | cons v rest ih =>
    rw [List.cons_append, weightIn_cons, weightIn_cons, ih]
    omega

theorem Value.weightIn_nested? {v : Value} {items : List Value} (h : v.nested? = some items) :
    weightIn items < v.weight := by
  induction v using nested?.induct with
  | case1 items' =>
    obtain rfl := Option.some.inj h
    exact Nat.lt_succ_self _
  | case2 items' =>
    obtain rfl := Option.some.inj h
    exact Nat.lt_succ_self _
  | case3 label v ih => exact ih h
  | case4 label =>
    obtain rfl := Option.some.inj h
    exact Nat.zero_lt_one
  | case5 v => simp [nested?] at h

theorem Value.weightIn_leadingItems_le (items : List Value) :
    weightIn (leadingItems items) ≤ weightIn items := by
  induction items with
  | nil => exact Nat.le_refl 0
  | cons v rest ih =>
    rw [leadingItems, weightIn_cons]
    split
    · next inner hv =>
      have hlt := weightIn_nested? hv
      rw [weightIn_append]
      omega
    · exact Nat.zero_le _

theorem Value.weightIn_afterLists_le (items : List Value) :
    weightIn (afterLists items) ≤ weightIn items := by
  induction items with
  | nil => exact Nat.le_refl 0
  | cons v rest ih =>
    rw [afterLists]
    split
    · rw [weightIn_cons]
      omega
    · exact Nat.le_refl _

/-- The normal form of the elements of a list. A list that nothing comes before is left out. -/
def normalItems : List Value → List Value
  | [] => []
  | v :: rest =>
    if v.nested?.isSome then normalItems rest
    else
      .text v.normalText ::
        (nestedItems (normalItems (leadingItems rest)) ++ normalItems (afterLists rest))
termination_by items => Value.weightIn items
decreasing_by
  · have := v.weight_pos
    rw [Value.weightIn_cons]
    omega
  · have := v.weight_pos
    have := Value.weightIn_leadingItems_le rest
    rw [Value.weightIn_cons]
    omega
  · have := v.weight_pos
    have := Value.weightIn_afterLists_le rest
    rw [Value.weightIn_cons]
    omega

/-! ## Elements and lines -/

namespace Value

theorem leaves_of_nested? {v : Value} {items : List Value} (h : v.nested? = some items)
    (depth : Nat) : v.leaves depth = leavesIn (depth + 1) items := by
  induction v using nested?.induct with
  | case1 items' =>
    obtain rfl := Option.some.inj h
    rfl
  | case2 items' =>
    obtain rfl := Option.some.inj h
    rfl
  | case3 label v ih => exact ih h
  | case4 label =>
    obtain rfl := Option.some.inj h
    rfl
  | case5 v => simp [nested?] at h

theorem plain?_of_outlineText {v : Value} {text : String} (h : v.outlineText = .ok text) :
    v.plain? = some text := by
  have hplain : ∀ {w : Value}, w.plain = .ok text → w.plain? = some text := by
    intro w hw
    unfold plain at hw
    split at hw
    · next s hs => rw [hs, Except.ok.inj hw]
    · exact nomatch hw
  cases v with
  | text s => exact congrArg some (Except.ok.inj h)
  | bool b => exact hplain h
  | int n => exact hplain h
  | float x => exact hplain h
  | _ => exact nomatch h

theorem exists_text {v : Value} {fields : Fields} (h : v.fields = .ok fields) :
    ∃ text, v.outlineText = .ok text ∧ Fields.ofText text = .ok fields := by
  unfold Value.fields at h
  cases ht : v.outlineText with
  | error e =>
    rw [ht] at h
    exact nomatch h
  | ok text =>
    rw [ht] at h
    exact ⟨text, rfl, h⟩

theorem canonicalText_of_fields {v : Value} {fields : Fields} (h : v.fields = .ok fields) :
    canonicalText (v.plain?.getD "") = fields.source := by
  obtain ⟨text, ht, hf⟩ := exists_text h
  obtain ⟨hparse, -⟩ := Fields.ofText_eq_ok hf
  rw [plain?_of_outlineText ht, Option.getD_some, Fields.source_of_parse hparse]

/-- An element that is not a list is one leaf, which gives fields that are written as the text of
the element in canonical form. -/
theorem exists_leaf {v : Value} (h : v.nested? = none) (depth : Nat) :
    ∃ w, v.leaves depth = [(w, depth)] ∧
      ∀ fields, w.fields = .ok fields → v.normalText = fields.source := by
  induction v using nested?.induct with
  | case3 label v ih => exact ih h
  | case5 v hlist htuple hloop hagain =>
    cases v with
    | list items => exact nomatch h
    | tuple items => exact nomatch h
    | loop label v => exact (hloop label v rfl).elim
    | again label => exact nomatch h
    | _ => exact ⟨_, rfl, fun _ => canonicalText_of_fields⟩
  | _ => exact nomatch h

end Value

theorem leavesIn_eq_leading_append (items : List Value) (depth : Nat) :
    leavesIn depth items =
      leavesIn (depth + 1) (leadingItems items) ++ leavesIn depth (afterLists items) := by
  induction items with
  | nil => rfl
  | cons v rest ih =>
    rw [leadingItems, afterLists]
    cases hv : v.nested? with
    | none => rfl
    | some inner =>
      rw [leavesIn, Value.leaves_of_nested? hv, ih, leavesIn_append, List.append_assoc]
      rfl

theorem depth_le_of_mem_leavesIn {e : Value × Nat} :
    ∀ (items : List Value) {depth : Nat}, e ∈ leavesIn depth items → depth ≤ e.2
  | [], _, he => absurd he List.not_mem_nil
  | v :: rest, depth, he => by
    rcases List.mem_append.1 he with he | he
    · cases hv : v.nested? with
      | none =>
        obtain ⟨w, hw, -⟩ := Value.exists_leaf hv depth
        rw [hw, List.mem_singleton] at he
        rw [he]
      | some inner =>
        rw [Value.leaves_of_nested? hv] at he
        exact Nat.le_of_succ_le (depth_le_of_mem_leavesIn inner he)
    · exact depth_le_of_mem_leavesIn rest he
termination_by items => Value.weightIn items
decreasing_by
  · have := Value.weightIn_nested? hv
    rw [Value.weightIn_cons]
    omega
  · have := v.weight_pos
    rw [Value.weightIn_cons]
    omega

theorem depth_of_mem_head?_afterLists {items : List Value} {depth : Nat} :
    ∀ e ∈ (leavesIn depth (afterLists items)).head?, e.2 = depth := by
  induction items with
  | nil => exact nofun
  | cons v rest ih =>
    rw [afterLists]
    split
    · exact ih
    · next hv =>
      obtain ⟨w, hw, -⟩ := Value.exists_leaf (Option.not_isSome_iff_eq_none.1 hv) depth
      rw [leavesIn, hw]
      rintro e ⟨⟩
      rfl

/-- A leaf gives the fields of a line and is as deep. -/
def Value.Gives (e : Value × Nat) (l : Line) : Prop :=
  e.1.fields = .ok l.fields ∧ e.2 = l.depth

/-- Leaves and lines that correspond do so above and below any depth. -/
theorem forall₂_append_inj {depth : Nat} {es es' : List (Value × Nat)} {ls ls' : List Line}
    (he : ∀ e ∈ es, depth < e.2) (hl : ∀ l ∈ ls, depth < l.depth)
    (he' : ∀ e ∈ es'.head?, e.2 ≤ depth) (hl' : ∀ l ∈ ls'.head?, l.depth ≤ depth)
    (h : List.Forall₂ Value.Gives (es ++ es') (ls ++ ls')) :
    List.Forall₂ Value.Gives es ls ∧ List.Forall₂ Value.Gives es' ls' := by
  induction es generalizing ls with
  | nil =>
    cases ls with
    | nil => exact ⟨.nil, h⟩
    | cons l ls =>
      cases h with
      | cons hg _ =>
        have h₁ := he' _ rfl
        have h₂ := hl l List.mem_cons_self
        have h₃ := hg.2
        omega
  | cons e es ih =>
    cases ls with
    | nil =>
      cases h with
      | cons hg _ =>
        have h₁ := he e List.mem_cons_self
        have h₂ := hl' _ rfl
        have h₃ := hg.2
        omega
    | cons l ls =>
      cases h with
      | cons hg h =>
        obtain ⟨hes, hes'⟩ := ih (fun e he₁ => he e (List.mem_cons_of_mem _ he₁))
          (fun l hl₁ => hl l (List.mem_cons_of_mem _ hl₁)) h
        exact ⟨.cons hg hes, hes'⟩

/-- A forest whose lines correspond to the leaves of some elements is exported as their normal
form. -/
theorem sourceItems_eq_normalItems {items : List Value} {depth : Nat} {g : Forest}
    (h : List.Forall₂ Value.Gives (leavesIn depth items) (g.lines depth)) :
    g.sourceItems = normalItems items := by
  induction items using normalItems.induct generalizing depth g with
  | case1 =>
    cases g with
    | nil => rw [normalItems, Forest.sourceItems]
    | cons => exact nomatch h
  | case2 v rest hv ih =>
    obtain ⟨inner, hinner⟩ := Option.isSome_iff_exists.1 hv
    rw [leavesIn, Value.leaves_of_nested? hinner] at h
    have hnone : leavesIn (depth + 1) inner = [] := by
      cases hl : leavesIn (depth + 1) inner with
      | nil => rfl
      | cons e es =>
        have hdeep : depth + 1 ≤ e.2 := by
          apply depth_le_of_mem_leavesIn inner
          rw [hl]
          exact List.mem_cons_self
        rw [hl] at h
        cases hg : g.lines depth with
        | nil =>
          rw [hg] at h
          exact nomatch h
        | cons l ls =>
          have hline : l.depth = depth := depth_of_mem_head? l (by rw [hg]; rfl)
          rw [hg] at h
          cases h with
          | cons hgives _ =>
            have heq := hgives.2
            omega
    rw [hnone, List.nil_append] at h
    rw [normalItems, if_pos hv, ih h]
  | case3 v rest hv ih₁ ih₂ =>
    obtain ⟨w, hw, htext⟩ := Value.exists_leaf (Option.not_isSome_iff_eq_none.1 hv) depth
    rw [leavesIn, hw, List.singleton_append, leavesIn_eq_leading_append] at h
    cases g with
    | nil => exact nomatch h
    | cons id fields below after =>
      cases h with
      | cons hg h =>
        obtain ⟨hbelow, hafter⟩ := forall₂_append_inj (fun e he => depth_le_of_mem_leavesIn _ he)
          (fun l hl => depth_le_of_mem_lines l hl)
          (fun e he => (depth_of_mem_head?_afterLists e he).le)
          (fun l hl => (depth_of_mem_head? l hl).le) h
        rw [normalItems, if_neg hv, Forest.sourceItems, ih₁ hbelow, ih₂ hafter,
          htext fields hg.1]

/-! ## Normal forms stay -/

/-- Elements in normal form: texts in canonical form, each with at most one list behind it, which
is not empty and is in normal form as well. -/
inductive Normal : List Value → Prop where
  | nil : Normal []
  | text {s : String} {rest : List Value} (hs : canonicalText s = s) (hrest : Normal rest) :
      Normal (.text s :: rest)
  | nested {s : String} {inner rest : List Value} (hs : canonicalText s = s) (hne : inner ≠ [])
      (hinner : Normal inner) (hrest : Normal rest) : Normal (.text s :: .list inner :: rest)

theorem nestedItems_of_ne_nil {items : List Value} (h : items ≠ []) :
    nestedItems items = [.list items] := by
  cases items with
  | nil => exact absurd rfl h
  | cons v rest => rfl

@[simp] theorem Value.canonicalText_normalText (v : Value) :
    canonicalText v.normalText = v.normalText := by
  induction v using normalText.induct with
  | case1 label v ih => exact ih
  | case2 v h =>
    rw [normalText]
    · exact canonicalText_canonicalText _
    · exact h

/-- No list stands at the head of elements in normal form. -/
theorem Normal.leadingItems_eq {items : List Value} (h : Normal items) :
    leadingItems items = [] := by
  cases h <;> rfl

theorem Normal.afterLists_eq {items : List Value} (h : Normal items) :
    afterLists items = items := by
  cases h <;> rfl

theorem normalItems_text (s : String) (rest : List Value) :
    normalItems (.text s :: rest) = .text (canonicalText s) ::
      (nestedItems (normalItems (leadingItems rest)) ++ normalItems (afterLists rest)) := by
  rw [normalItems, if_neg (by simp [Value.nested?])]
  rfl

/-- The normal form is in normal form. -/
theorem normal_normalItems (items : List Value) : Normal (normalItems items) := by
  induction items using normalItems.induct with
  | case1 =>
    rw [normalItems]
    exact .nil
  | case2 v rest hv ih =>
    rw [normalItems, if_pos hv]
    exact ih
  | case3 v rest hv ih₁ ih₂ =>
    rw [normalItems, if_neg hv]
    by_cases hne : normalItems (leadingItems rest) = []
    · rw [hne]
      exact .text v.canonicalText_normalText ih₂
    · rw [nestedItems_of_ne_nil hne]
      exact .nested v.canonicalText_normalText hne ih₁ ih₂

/-- Elements in normal form are their own normal form. -/
theorem Normal.normalItems_eq {items : List Value} (h : Normal items) :
    normalItems items = items := by
  induction h with
  | nil => rw [normalItems]
  | @text s rest hs hrest ih =>
    rw [normalItems_text, hrest.leadingItems_eq, hrest.afterLists_eq, ih, hs, normalItems]
    rfl
  | @nested s inner rest hs hne hinner hrest ih₁ ih₂ =>
    have hleading : leadingItems (.list inner :: rest) = inner := by
      show inner ++ leadingItems rest = inner
      rw [hrest.leadingItems_eq, List.append_nil]
    have hafter : afterLists (.list inner :: rest) = rest := hrest.afterLists_eq
    rw [normalItems_text, hleading, hafter, ih₁, ih₂, hs, nestedItems_of_ne_nil hne]
    rfl

/-! ## Import and export -/

namespace Store

variable {t u : Store} {items : List Value} {ids : List Int}

/-- What an import into an empty document makes corresponds to the elements of the outline. -/
theorem Fresh.exists_gives (ht : t.Fresh)
    (h : importOutline (.list items) none t = (.ok ids, u)) :
    ∃ g, u.Shows g ∧ List.Forall₂ Value.Gives (leavesIn 1 items) (g.lines 1) := by
  have ho := importOutline_outcome (C := .top) ht.spoilt_eq ht.shows (.list items)
  rw [show Hole.top.parent = none from rfl, h] at ho
  cases ho with
  | done _ _ hshows hgrows =>
    obtain ⟨g, hg, new, hlines, -, hnew⟩ := hgrows
    have hg' : (Hole.top.plug g).lines 1 = new := hlines
    refine ⟨Hole.top.plug g, hg ▸ hshows, ?_⟩
    rw [hg']
    exact hnew

/-- Fields that come from an element are given again by the text that they are written as. -/
theorem readsBack_of_gives {e : Value × Nat} {l : Line} (h : Value.Gives e l) :
    l.fields.ReadsBack := by
  obtain ⟨text, -, hf⟩ := Value.exists_text h.1
  exact Fields.ofText_source hf

theorem all_readsBack {g : Forest} {leaves : List (Value × Nat)} {depth : Nat}
    (h : List.Forall₂ Value.Gives leaves (g.lines depth)) :
    g.All fun _ fields => fields.ReadsBack := by
  rw [g.all_iff depth]
  generalize g.lines depth = ls at h ⊢
  induction h with
  | nil => exact fun l hl => absurd hl List.not_mem_nil
  | cons hgives _ ih => exact List.forall_mem_cons.2 ⟨readsBack_of_gives hgives, ih⟩

end Store

namespace Document

/-- A document that is made of an outline is exported as the normal form of the outline. So an
outline in normal form is exported as it is, and to import the export and export that again
changes nothing: neither the outline, nor anything that can be stored. -/
theorem ofOutline_sourceOutline {t u : Store} {setup : Setup} {items : List Value} {d : Document}
    (ht : t.Fresh) (h : ofOutline t setup (.list items) = (.ok d, u)) :
    d.sourceOutline = .ok (.list (normalItems items)) ∧
      (Normal items → d.sourceOutline = .ok (.list items)) ∧
      normalItems (normalItems items) = normalItems items ∧
      ∀ t' : Store, t'.Fresh →
        (∀ p ∈ d.store.paragraphs, t'.canHold p.position p.heading = true) →
        ∃ d' u', ofOutline t' setup (.list (normalItems items)) = (.ok d', u') ∧
          d'.sourceOutline = .ok (.list (normalItems items)) := by
  have hmade := made t setup items
  rw [h] at hmade
  cases hmade with
  | @done d₀ ids _ hnew hrun =>
    obtain ⟨g, hshows, hgives⟩ := ht.exists_gives hrun
    have hitems := sourceItems_eq_normalItems hgives
    have hexport : Document.sourceOutline { d₀ with store := u } =
        .ok (.list (normalItems items)) := by
      rw [Store.Shows.sourceOutline_eq hshows, hitems]
    have htwice := (normal_normalItems items).normalItems_eq
    refine ⟨hexport, fun hnormal => ?_, htwice, fun t' ht' hhold => ?_⟩
    · rw [hexport, hnormal.normalItems_eq]
    · obtain ⟨ids', u', hrun'⟩ := ht'.exists_import hshows (Store.all_readsBack hgives) hhold
      obtain ⟨g', hshows', hgives'⟩ := ht'.exists_gives hrun'
      rw [hitems] at hrun' hgives'
      refine ⟨{ d₀ with store := u' }, u', ofOutline_ok hnew hrun', ?_⟩
      rw [Store.Shows.sourceOutline_eq hshows', sourceItems_eq_normalItems hgives', htwice]

/-- Lists in a row below one paragraph, one of them empty. -/
theorem ofOutline_sourceOutline_lists :
    (ofOutline { documentId := "d" } {} (.list [.text "#rticles#heading#01 a", .list [],
        .list [.text "b"], .list [.text "c", .list []]])).1.bind sourceOutline =
      .ok (.list [.text "#rticles#heading a", .list [.text "b", .text "c"]]) := by
  have hnormal : normalItems [.text "#rticles#heading#01 a", .list [], .list [.text "b"],
      .list [.text "c", .list []]] =
      [.text "#rticles#heading a", .list [.text "b", .text "c"]] := by
    simp only [normalItems_text, leadingItems, afterLists, Value.nested?, Option.isSome_some,
      Option.isSome_none, Bool.false_eq_true, if_true, if_false, List.append_nil, List.nil_append,
      List.cons_append, normalItems]
    rfl
  have hmade : ∃ d u, ofOutline { documentId := "d" } {} (.list [.text "#rticles#heading#01 a",
      .list [], .list [.text "b"], .list [.text "c", .list []]]) = (.ok d, u) := ⟨_, _, rfl⟩
  obtain ⟨d, u, h⟩ := hmade
  have hexport := (ofOutline_sourceOutline (Store.fresh_empty .memory "d") h).1
  rw [h, ← hnormal]
  exact hexport

end Document

end Bylaws
