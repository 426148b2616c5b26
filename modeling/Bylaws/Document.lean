import Bylaws.Forest.Edit
import Bylaws.Forest.Import
import Bylaws.Html.Layout
import Bylaws.Topic

/-!
# Documents

A document is a store of paragraphs together with all that it is shown under. The settings can
be changed at any time, and everything shown reads them as they are.
-/

namespace Bylaws

structure Document where
  store : Store
  choices : Choices := {}
  insertions : Insertions := {}
  numbering : Numbering := {}
  missing : String := ""
  deriving Inhabited

namespace Document

/-- The view of a document under its own settings. -/
def view (d : Document) (withNumbers : Bool) : View where
  choices := d.choices
  insertions := d.insertions
  numbering := d.numbering
  missing := d.missing
  withNumbers

/-- Runs a store operation on a document. -/
def edit {α : Type} (d : Document) (action : StoreM α) : Except Fault α × Document :=
  let (r, store) := action d.store
  (r, { d with store })

/-- Runs a store operation that makes a paragraph, and answers that paragraph. -/
def editAndGet (d : Document) (action : StoreM Int) : Except Fault Paragraph × Document :=
  let (r, d) := d.edit action
  (r.bind d.store.get, d)

/-- The rank of a paragraph. -/
def rank? (d : Document) (p : Paragraph) : Option Nat := d.store.rank? d.choices p

/-- The number of a paragraph. -/
def number? (d : Document) (p : Paragraph) : Except Fault (Option String) :=
  d.store.number? d.choices d.numbering p

/-- The first paragraph with a number. -/
def byReference? (d : Document) (reference : String) : Except Fault (Option Paragraph) :=
  d.store.byReference? d.choices d.numbering reference

/-- The numbers of the paragraphs with any of the topics that a value lists. -/
def topicNumbers (d : Document) (topics : Value) (consolidated : Bool) : Except Fault String := do
  d.store.topicNumbers d.choices d.numbering (← Store.topicsOf topics) consolidated

/-- The outline of the document under its settings. -/
def outline (d : Document) (kind : OutlineKind) (withNumbers : Bool) : Except Fault (List Value) :=
  d.store.outline (d.view withNumbers) kind

/-- The import texts of the document as a nested list. -/
def sourceOutline (d : Document) : Except Fault Value := (d.outline .source false).map .list

/-- The document as markup under its settings. -/
def html (d : Document) (withNumbers : Bool) : Except Fault String :=
  d.store.html (d.view withNumbers)

/-- Runs some operations on a document in one transaction, which is committed or aborted. -/
def inTransaction {α : Type} (d : Document) (abort : Bool) (body : Document → α × Document) :
    α × Document :=
  let ((a, e), store) :=
    Store.guarded (fun _ => abort) (fun s =>
      let (a, e) := body { d with store := s }
      ((a, e), e.store)) d.store
  (a, { e with store })

/-- The settings that a document is made with. Absent ones take their defaults. -/
structure Setup where
  choices : Value := .null
  insertions : Value := .null
  numbering : Numbering := {}
  missing : String := ""

/-- A document on a store, without an import. The choices are read before the insertions. -/
def new (store : Store) (setup : Setup) : Except Fault Document := do
  let choices : Choices ← Settings.ofValue setup.choices
  let insertions : Insertions ← Settings.ofValue setup.insertions
  return { store, choices, insertions, numbering := setup.numbering, missing := setup.missing }

/-- A loaded value as an outline: one that is absent, zero or empty is the empty outline. -/
def orEmpty (v : Value) : Value := if v.holds then v else .list []

/-- A document on a store into which an outline is imported, and the store afterwards. -/
def ofOutline (store : Store) (setup : Setup) (outline : Value) :
    Except Fault Document × Store :=
  match new store setup with
  | .error e => (.error e, store)
  | .ok d =>
    let (r, d) := d.edit (Store.importOutline outline none)
    (r.map fun _ => d, d.store)

end Document

end Bylaws
