import Bylaws.Document
import Bylaws.Proofs.Forest.Import

/-!
# Outlines of the import texts

The outline of a document by its import texts, read off the forest that its store shows. Its
elements that are not lists are the lines of the document, each as deep as it is nested. The other
way round, `Document.made` says how a document is made of an outline.
-/

namespace Bylaws

open Forest

/-- What is below a paragraph as elements of an outline: a list of it, unless it is empty. -/
def nestedItems (items : List Value) : List Value := if items.isEmpty then [] else [.list items]

/-- The import texts of a forest, each followed by what is below it. -/
def Forest.sourceItems : Forest → List Value
  | nil => []
  | cons _ fields below rest =>
    .text fields.source :: (nestedItems below.sourceItems ++ rest.sourceItems)

theorem leavesIn_append (depth : Nat) (items items' : List Value) :
    leavesIn depth (items ++ items') = leavesIn depth items ++ leavesIn depth items' := by
  induction items with
  | nil => rfl
  | cons v rest ih =>
    show v.leaves depth ++ leavesIn depth (rest ++ items') = _
    rw [ih, ← List.append_assoc]
    rfl

theorem leavesIn_nestedItems (depth : Nat) (items : List Value) :
    leavesIn depth (nestedItems items) = leavesIn (depth + 1) items := by
  cases items with
  | nil => rfl
  | cons v rest => exact List.append_nil _

/-- The elements of an outline by import texts are the lines of the forest. -/
theorem leavesIn_sourceItems (f : Forest) (depth : Nat) :
    leavesIn depth f.sourceItems =
      (f.lines depth).map fun l => (.text l.fields.source, l.depth) := by
  induction f generalizing depth with
  | nil => rfl
  | cons id fields below rest ih₁ ih₂ =>
    show (.text fields.source, depth) ::
      leavesIn depth (nestedItems below.sourceItems ++ rest.sourceItems) = _
    rw [leavesIn_append, leavesIn_nestedItems, ih₁, ih₂, Forest.lines, List.map_cons,
      List.map_append]

namespace Store

variable {s : Store} {f : Forest}

/-- Only texts for display are punctuated. -/
theorem outlineBelow_source {v : View} {items : List Value}
    {entries : List (Paragraph × Except Fault (List Value))} (p : Paragraph)
    (h : s.outlineEntries v .source entries = .ok items) :
    s.outlineBelow v .source p entries = .ok items := by
  unfold outlineBelow
  rw [h]
  show Except.ok (if _ then _ else _) = _
  rw [if_neg (by simp)]

theorem outlineEntries_nodes (s : Store) (v : View) (doc : String) (parent : Option Int) (k : Int)
    (f : Forest) :
    s.outlineEntries v .source (foldForest (s.outlineBelow v .source) (f.nodes doc parent k)) =
      .ok f.sourceItems := by
  induction f generalizing parent k with
  | nil =>
    rw [nodes, foldForest]
    rfl
  | cons id fields below rest ih₁ ih₂ =>
    rw [nodes, foldForest, outlineEntries, outlineBelow_source _ (ih₁ (some id) 1), ih₂]
    rfl

/-- The outline of a document by its import texts. -/
theorem Shows.sourceOutline_eq {d : Document} (h : d.store.Shows f) :
    d.sourceOutline = .ok (.list f.sourceItems) := by
  unfold Document.sourceOutline Document.outline Store.outline
  rw [h.forest_eq, outlineEntries_nodes]
  rfl

end Store

/-! ## Documents made of an outline -/

namespace Document

/-- The settings of a document do not depend on its store. -/
theorem new_eq_map (s t : Store) (setup : Setup) :
    new t setup = (new s setup).map ({ · with store := t }) := by
  unfold new
  cases (Settings.ofValue setup.choices : Except Fault Choices) with
  | error e => rfl
  | ok choices =>
    cases (Settings.ofValue setup.insertions : Except Fault Insertions) with
    | error e => rfl
    | ok insertions => rfl

/-- How a document is made of an outline: the settings are refused, or the import fails, or it is
completed. -/
inductive Made (s : Store) (setup : Setup) (items : List Value) :
    Except Fault Document × Store → Prop where
  | refused {e : Fault} : new s setup = .error e → Made s setup items (.error e, s)
  | failed {d : Document} {e : Fault} {t : Store} : new s setup = .ok d →
      Store.importOutline (.list items) none s = (.error e, t) → Made s setup items (.error e, t)
  | done {d : Document} {ids : List Int} {t : Store} : new s setup = .ok d →
      Store.importOutline (.list items) none s = (.ok ids, t) →
      Made s setup items (.ok { d with store := t }, t)

theorem made (s : Store) (setup : Setup) (items : List Value) :
    Made s setup items (ofOutline s setup (.list items)) := by
  unfold ofOutline
  cases hd : new s setup with
  | error e => exact .refused hd
  | ok d =>
    have hs : d.store = s := by
      rw [new_eq_map s s] at hd
      cases hnew : new s setup with
      | error e =>
        rw [hnew] at hd
        exact nomatch hd
      | ok d' =>
        rw [hnew] at hd
        obtain rfl := Except.ok.inj hd
        rfl
    unfold Document.edit
    dsimp only
    rw [hs]
    rcases hrun : Store.importOutline (.list items) none s with ⟨e | ids, t⟩
    · exact .failed hd hrun
    · exact .done hd hrun

theorem ofOutline_ok {s t u : Store} {setup : Setup} {items : List Value} {ids : List Int}
    {d : Document} (hd : new s setup = .ok d)
    (hrun : Store.importOutline (.list items) none t = (.ok ids, u)) :
    ofOutline t setup (.list items) = (.ok { d with store := u }, u) := by
  have hnew : new t setup = .ok { d with store := t } := by
    rw [new_eq_map s t, hd]
    rfl
  have hmade := made t setup items
  generalize ofOutline t setup (.list items) = x at hmade ⊢
  cases hmade with
  | refused h => exact nomatch h.symm.trans hnew
  | failed _ h => exact nomatch h.symm.trans hrun
  | done h h' =>
    obtain rfl := Except.ok.inj (hnew.symm.trans h)
    obtain ⟨-, rfl⟩ := Prod.mk.inj (h'.symm.trans hrun)
    rfl

end Document

end Bylaws
