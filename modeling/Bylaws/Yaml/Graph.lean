import Bylaws.Yaml.Tag
import Bylaws.Yaml.Token.Basic

/-!
# Graphs of nodes

What a YAML text describes before its scalars become values: nodes, which are named by their
place among all nodes of the document. An alias is a second mention of a node, so a node can lie
in several collections, and in itself. `Graph.ofTokens` goes through the tokens once, keeping the
collections that are open. Every token is taken in one step; before that, what must be complete
in front of it is completed.
-/

namespace Bylaws.Yaml

/-- What a node is written as. -/
inductive Content where
  | scalar (text : List Char)
  | list (items : List Nat)
  | dict (entries : List (Nat × Nat))
  deriving Inhabited

structure Node where
  tag : Tag
  content : Content
  deriving Inhabited

/-- The nodes of a document, and its outermost node. -/
structure Graph where
  nodes : Array Node
  root : Nat
  deriving Inhabited

namespace Node

/-- What stands where nothing is written. -/
def absent : Node := ⟨.null, .scalar []⟩

/-- The anchor and the full name of the tag that stand in front of a node. -/
structure Properties where
  anchor : Option String := none
  tag : Option String := none

def Properties.isEmpty (p : Properties) : Bool := p.anchor.isNone && p.tag.isNone

/-- The tag of a node, if one is given. -/
def Properties.tag? (p : Properties) : Option Tag :=
  (p.tag.filter (· ≠ unspecificTag)).map Tag.ofName

/-- A scalar with properties. A scalar in quotes is a text unless it has a tag. -/
def ofScalar (p : Properties) (text : List Char) (plain : Bool) : Node where
  tag := p.tag?.getD (if plain || p.tag.isSome then Tag.ofPlain text else .text)
  content := .scalar text

/-- A list that is being read. -/
def openList (p : Properties) : Node := ⟨p.tag?.getD .list, .list []⟩

/-- A dictionary that is being read. -/
def openDict (p : Properties) : Node := ⟨p.tag?.getD .dict, .dict []⟩

end Node

namespace Graph

open Yaml.Node (Properties)

/-- How the items of a list are written. -/
inductive ListForm where
  | block
  /-- A block at the indentation of the dictionary around it, without an end of its own. -/
  | level
  | brackets
  deriving DecidableEq

/-- How the entries of a dictionary are written. -/
inductive DictForm where
  | block
  | brackets
  /-- One entry in a list in brackets. -/
  | pair
  deriving DecidableEq

/-- What the next node of a dictionary is. -/
inductive Slot where
  | key
  /-- A key in brackets without a value, for which an absent node stands. -/
  | bareKey (absent : Nat)
  | value (key : Nat)

/-- A collection that is being read, with its members in reverse. -/
inductive Frame where
  | list (form : ListForm) (node : Nat) (items : List Nat)
  | dict (form : DictForm) (node : Nat) (entries : List (Nat × Nat)) (slot : Slot)

/-- What may come next. -/
inductive Expect where
  /-- A node, of which some properties are read. -/
  | node (p : Properties)
  /-- A member of a collection in brackets, or its end. -/
  | member
  /-- What follows a complete member. -/
  | next

/-- How far a document has been read. -/
structure Progress where
  /-- The abbreviations of tags. -/
  handles : List (String × String)
  nodes : Array Node := #[]
  /-- The nodes with an anchor. -/
  anchors : List (String × Nat) := []
  /-- The open collections, the innermost first. -/
  frames : List Frame := []
  expect : Expect := .node {}
  root : Option Nat := none

namespace Frame

/-- The node of a collection. -/
def node : Frame → Nat
  | list _ n _ => n
  | dict _ n _ _ => n

/-- What a collection holds. -/
def content : Frame → Content
  | list _ _ items => .list items.reverse
  | dict _ _ entries _ => .dict entries.reverse

/-- Whether blocks may lie in a collection. -/
def holdsBlocks : Frame → Bool
  | list form _ _ => form ≠ .brackets
  | dict form _ _ _ => form = .block

/-- Whether a token shows that the next node of a collection is absent. -/
def showsAbsent (f : Frame) (t : Token) : Bool :=
  match f with
  | list .block _ _ => t = .item || t = .blockEnd
  | list .level _ _ => t = .item || t = .key || t = .value || t = .blockEnd
  | list .brackets _ _ => false
  | dict .block _ _ _ => t = .key || t = .value || t = .blockEnd
  | dict .brackets _ _ .key => t = .value || t = .comma || t = .closeDict
  | dict .brackets _ _ (.value _) => t = .comma || t = .closeDict
  | dict .brackets _ _ (.bareKey _) => false
  | dict .pair _ _ (.value _) => t = .comma || t = .closeList
  | dict .pair _ _ _ => t = .value || t = .comma || t = .closeList

/-- A collection with a member added. -/
def add (n : Nat) : Frame → Frame
  | list form node items => list form node (n :: items)
  | dict form node entries .key => dict form node entries (.value n)
  | dict form node entries (.bareKey a) => dict form node ((n, a) :: entries) .key
  | dict form node entries (.value k) => dict form node ((k, n) :: entries) .key

end Frame

namespace Progress

/-- Makes a node. -/
def make (s : Progress) (n : Node) : Nat × Progress :=
  (s.nodes.size, { s with nodes := s.nodes.push n })

/-- Makes a node with properties. An anchor names one node only. -/
def make? (s : Progress) (p : Properties) (n : Node) : Option (Nat × Progress) :=
  let (i, s) := s.make n
  match p.anchor with
  | none => some (i, s)
  | some name =>
    if s.anchors.any (·.1 == name) then none
    else some (i, { s with anchors := (name, i) :: s.anchors })

/-- Gives the node of a collection what the collection holds. -/
def fill (s : Progress) (f : Frame) : Progress :=
  { s with nodes := s.nodes.modify f.node fun n => { n with content := f.content } }

/-- Puts a node into the innermost collection. A pair ends with its value. -/
def place (s : Progress) (n : Nat) : Progress :=
  match s.frames with
  | [] => { s with root := some n, expect := .next }
  | .dict .pair node entries (.value k) :: outer :: frames =>
    let pair := (Frame.dict .pair node entries (.value k)).add n
    { s.fill pair with frames := outer.add node :: frames, expect := .next }
  | f :: frames => { s with frames := f.add n :: frames, expect := .next }

/-- Puts a scalar with properties into the innermost collection. -/
def placeScalar? (s : Progress) (p : Properties) (text : List Char) (plain : Bool) :
    Option Progress :=
  (s.make? p (.ofScalar p text plain)).map fun (n, s) => s.place n

/-- Puts an absent node into the innermost collection. -/
def placeAbsent (s : Progress) : Progress :=
  let (n, s) := s.make .absent
  s.place n

/-- Opens a collection. -/
def enter (s : Progress) (f : Frame) (expect : Expect) : Progress :=
  { s with frames := f :: s.frames, expect }

/-- Opens a list with properties. -/
def enterList? (s : Progress) (form : ListForm) (p : Properties) (expect : Expect) :
    Option Progress :=
  (s.make? p (.openList p)).map fun (n, s) => s.enter (.list form n []) expect

/-- Opens a dictionary with properties. -/
def enterDict? (s : Progress) (form : DictForm) (p : Properties) (expect : Expect) :
    Option Progress :=
  (s.make? p (.openDict p)).map fun (n, s) => s.enter (.dict form n [] .key) expect

/-- Ends the innermost collection. -/
def leave (s : Progress) : Progress :=
  match s.frames with
  | [] => s
  | f :: frames => { s.fill f with frames }.place f.node

/-- Whether blocks may come here. -/
def allowsBlock (s : Progress) : Bool := s.frames.head?.all Frame.holdsBlocks

/-- Whether a node with some properties can go on with a token. -/
def continuesNode (s : Progress) (p : Properties) : Token → Bool
  | .alias _ => p.isEmpty
  | .anchor _ => p.anchor.isNone
  | .tag _ => p.tag.isNone
  | .scalar .. | .openList | .openDict => true
  | .blockList | .blockDict => s.allowsBlock
  | .item => match s.frames with
    | .dict .block .. :: _ => true
    | _ => false
  | _ => false

/-- Completes a node that has no text of its own when another token follows. -/
def completeNode? (s : Progress) (t : Token) : Option Progress :=
  match s.expect with
  | .node p =>
    let absentHere := s.frames.head?.any fun f => f.showsAbsent t
    if !s.continuesNode p t && (absentHere || !p.isEmpty) then s.placeScalar? p [] true
    else some s
  | _ => some s

/-- Ends a list without an end of its own when no other item follows. -/
def completeLevel (s : Progress) (t : Token) : Progress :=
  match s.expect, s.frames with
  | .next, .list .level .. :: _ => if t = .item then s else s.leave
  | _, _ => s

/-- Completes an entry without a value when no value follows. -/
def completeEntry (s : Progress) (t : Token) : Progress :=
  match s.expect, s.frames with
  | .next, .dict _ _ _ (.value _) :: _ => if t = .value then s else s.placeAbsent
  | _, _ => s

/-- Completes what must be complete in front of a token. -/
def completeBefore? (s : Progress) (t : Token) : Option Progress :=
  (s.completeNode? t).map fun s => (s.completeLevel t).completeEntry t

/-- The full name of a tag. -/
def tagName? (s : Progress) (t : TagText) : Option String :=
  match t.handle with
  | none => some t.name
  | some h => (s.handles.find? fun e => e.1 == h).map fun e => e.2 ++ t.name

/-- Takes a token of a node with some properties. -/
def takeNode (s : Progress) (p : Properties) (t : Token) : Option Progress :=
  if !s.continuesNode p t then none
  else
    match t with
    | .alias name => (s.anchors.find? fun e => e.1 == name).map fun e => s.place e.2
    | .anchor name => some { s with expect := .node { p with anchor := some name } }
    | .tag t => (s.tagName? t).map fun name => { s with expect := .node { p with tag := name } }
    | .scalar text plain => s.placeScalar? p text plain
    | .openList => s.enterList? .brackets p .member
    | .openDict => s.enterDict? .brackets p .member
    | .blockList => s.enterList? .block p .next
    | .blockDict => s.enterDict? .block p .next
    | .item => s.enterList? .level p (.node {})
    | _ => none

/-- Takes a token in front of a member of a collection in brackets. -/
def takeMember (s : Progress) (t : Token) : Option Progress :=
  match s.frames, t with
  | .list .. :: _, .closeList | .dict .. :: _, .closeDict => some s.leave
  | .list .. :: _, .key => s.enterDict? .pair {} (.node {})
  | .dict .. :: _, .key => some { s with expect := .node {} }
  | .dict form node entries _ :: frames, t =>
    let (a, s) := s.make .absent
    { s with frames := .dict form node entries (.bareKey a) :: frames }.takeNode {} t
  | _, t => s.takeNode {} t

/-- Takes a token behind a complete member. -/
def takeNext (s : Progress) (t : Token) : Option Progress :=
  let node := some { s with expect := .node {} }
  match s.frames, t with
  | .list .block .. :: _, .item | .list .level .. :: _, .item => node
  | .list .block .. :: _, .blockEnd => some s.leave
  | .list .brackets .. :: _, .comma => some { s with expect := .member }
  | .list .brackets .. :: _, .closeList => some s.leave
  | .dict _ _ _ (.value _) :: _, .value => node
  | .dict .block _ _ .key :: _, .key => node
  | .dict .block _ _ .key :: _, .blockEnd => some s.leave
  | .dict .brackets _ _ .key :: _, .comma => some { s with expect := .member }
  | .dict .brackets _ _ .key :: _, .closeDict => some s.leave
  | _, _ => none

/-- Takes a token. -/
def take? (s : Progress) (t : Token) : Option Progress := do
  let s ← s.completeBefore? t
  match s.expect with
  | .node p => s.takeNode p t
  | .member => s.takeMember t
  | .next => s.takeNext t

/-- The graph when the document ends. -/
def finish? (s : Progress) : Option Graph := do
  let s ← s.completeBefore? .documentEnd
  let root ← s.root
  if s.frames.isEmpty then some { nodes := s.nodes, root } else none

end Progress

/-- What the lines in front of a document declare: whether one names a version, and the
abbreviations. -/
def declare? (known : Bool × List (String × String)) : Declaration →
    Option (Bool × List (String × String))
  | .version major => if known.1 || major ≠ 1 then none else some (true, known.2)
  | .abbreviation handle start =>
    if known.2.any (·.1 == handle) then none else some (known.1, (handle, start) :: known.2)
  | .other => some known

/-- The abbreviations that need no declaration. -/
def standardHandles : List (String × String) := [("!", "!"), ("!!", standardTag)]

/-- The declaration in a token. -/
def declaration? : Token → Option Declaration
  | .declaration d => some d
  | _ => none

/-- Whether a token belongs to no document. -/
def isBetween (t : Token) : Bool :=
  t = .documentStart || t = .documentEnd || (declaration? t).isSome

/-- The graph of a document in which nothing is written. -/
def absent : Graph := ⟨#[.absent], 0⟩

/-- The graph of the one document that some tokens hold, if there is one. A fault at the end of
the tokens counts once all of them are taken. -/
def ofTokens (ts : List Token) (fault : Option Fault) : Except Fault (Option Graph) := do
  let atEnd {α : Type} (a : α) : Except Fault α :=
    match fault with
    | some f => .error f
    | none => .ok a
  let need {α : Type} (a : Option α) : Except Fault α :=
    match a with
    | some a => .ok a
    | none => .error .malformedYaml
  let declarationsOf (ts : List Token) : List Declaration :=
    (ts.takeWhile fun t => (declaration? t).isSome).filterMap declaration?
  let declarations := declarationsOf ts
  let (_, handles) ← need (declarations.foldlM declare? (false, []))
  let document (ts : List Token) (whenEmpty : Option Graph) : Except Fault (Option Graph) := do
    let content := ts.takeWhile fun t => !isBetween t
    let after := ts.drop content.length
    let s ← need (content.foldlM Progress.take? { handles := handles ++ standardHandles })
    if after.isEmpty then atEnd ()
    let graph ← need (if content.isEmpty then whenEmpty else s.finish?)
    match after.dropWhile (· = .documentEnd) with
    | [] => atEnd (some graph)
    | more =>
      let declarations := declarationsOf more
      let _ ← need (declarations.foldlM declare? (false, []))
      if more.length = declarations.length then atEnd ()
      throw .malformedYaml
  match ts.drop declarations.length with
  | .documentStart :: rest => document rest (some absent)
  | [] => if declarations.isEmpty then atEnd none else do
    atEnd ()
    throw .malformedYaml
  | rest => if declarations.isEmpty then document rest none else throw .malformedYaml

end Graph

end Bylaws.Yaml
