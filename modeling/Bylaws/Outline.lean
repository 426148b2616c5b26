import Bylaws.Index

/-!
# Outlines

A document as a nested list of texts: each paragraph shown is a text, followed by a list of
what is shown below it, if anything is. An outline can hold the bodies as they are stored, or
the texts that an import would read, or the texts for display, which are resolved, numbered on
request, and punctuated where a paragraph says that what is below it forms a list.
-/

namespace Bylaws

/-- What a document is shown under. -/
structure View where
  choices : Choices := {}
  insertions : Insertions := {}
  numbering : Numbering := {}
  /-- The text in place of a missing insertion. -/
  missing : String := ""
  withNumbers : Bool := false

/-- The three sorts of outlines. -/
inductive OutlineKind where
  | bodies
  | source
  | display
  deriving DecidableEq, Repr

namespace Store

/-- A text behind a number, if there is a number that is not empty. -/
def numbered (number : Option String) (text : String) : String :=
  match number with
  | some n => if n.isEmpty then text else n ++ " " ++ text
  | none => text

/-- The text that a paragraph shows, or `none` if it is left out. -/
def displayText (s : Store) (v : View) (p : Paragraph) : Except Fault (Option String) :=
  match Body.resolve? p.body v.choices v.insertions v.missing with
  | none => .ok none
  | some text => do
    let number ← if v.withNumbers then s.number? v.choices v.numbering p else .ok none
    return some (numbered number text)

/-- The text that a paragraph has in an outline. -/
def outlineText (s : Store) (v : View) (kind : OutlineKind) (p : Paragraph) :
    Except Fault (Option String) :=
  match kind with
  | .bodies => .ok (some p.body)
  | .source => .ok (some p.source)
  | .display => s.displayText v p

end Store

/-- Ends the texts of a list: the last with a full stop, the others with a semicolon. The second
part of the answer says whether there was a text. -/
def punctuated : List Value → List Value × Bool
  | [] => ([], false)
  | v :: rest =>
    let (ended, some_) := punctuated rest
    match v with
    | .text s => (.text (s ++ if some_ then ";" else ".") :: ended, true)
    | v => (v :: ended, some_)

/-- The items of a list with its texts ended; other items stay as they are. -/
def punctuate (items : List Value) : List Value := (punctuated items).1

/-- Ends the texts that a dictionary holds under the numbers below `n`, from the greatest down.
Every number must be there. -/
def punctuateEntries (entries : List (Value × Value)) (last : Bool) :
    (n : Nat) → Except Fault (List (Value × Value))
  | 0 => .ok entries
  | n + 1 =>
    match entries.find? fun e => Value.sameKey e.1 (.int n) with
    | none => .error (.numberMissing n)
    | some (_, .text s) =>
      punctuateEntries (Value.insertEntry entries (.int n) (.text (s ++ if last then "." else ";")))
        false n
    | some _ => punctuateEntries entries last n

/-- Whether a value is a text. -/
def Value.isText : Value → Bool
  | .text _ => true
  | _ => false

/-- A value with its texts ended in place. The items of a list can be replaced, and those that
a dictionary holds by number; a tuple or a text that would have to change is a fault. -/
def punctuateValue (v : Value) : Except Fault Value :=
  match v with
  | .list items => .ok (.list (punctuate items))
  | .tuple items => if items.any Value.isText then .error (.fixedItems v.kind) else .ok v
  | .text s => if s.isEmpty then .ok v else .error (.fixedItems v.kind)
  | .dict entries => (punctuateEntries entries true entries.length).map .dict
  | v => .error (.noSize v.fullKind)

namespace Store

/-- The entries for siblings, each given with the entries for what is below it. -/
def outlineEntries (s : Store) (v : View) (kind : OutlineKind) :
    List (Paragraph × Except Fault (List Value)) → Except Fault (List Value)
  | [] => .ok []
  | (p, below) :: rest => do
    match ← s.outlineText v kind p with
    | none => s.outlineEntries v kind rest
    | some text =>
      let inner ← below
      let nested := if inner.isEmpty then [] else [.list inner]
      return .text text :: nested ++ (← s.outlineEntries v kind rest)

/-- The entries for what is below a paragraph. -/
def outlineBelow (s : Store) (v : View) (kind : OutlineKind) (p : Paragraph)
    (below : List (Paragraph × Except Fault (List Value))) : Except Fault (List Value) := do
  let entries ← s.outlineEntries v kind below
  return if p.list && kind = .display then punctuate entries else entries

/-- The outline of a document. -/
def outline (s : Store) (v : View) (kind : OutlineKind) : Except Fault (List Value) :=
  s.outlineEntries v kind (foldForest (s.outlineBelow v kind) s.forest)

end Store

end Bylaws
