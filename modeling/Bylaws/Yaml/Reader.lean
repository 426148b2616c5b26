import Bylaws.Value.SetOrder
import Bylaws.Yaml.Merge
import Bylaws.Yaml.Scalar
import Bylaws.Yaml.Token.Reading

/-!
# Reading YAML

The value of a YAML text: the text is cut into tokens, the tokens make up a graph of nodes, and
the nodes have values. A scalar has its value as soon as a collection around it is looked into.
A collection waits until all that were met before it are looked into, so of several faults in a
graph the one counts that lies least deep, and of those the first.
-/

namespace Bylaws.Yaml

open Bylaws.Yaml.Graph

/-- A key of a dictionary or a set. A value that is not a number is equal to nothing but itself,
so for such a key it counts at which node it stands; the one that is written as a word is the
same at all nodes. -/
structure Key where
  value : Value
  node : Option Nat := none

/-- Whether two keys are one. -/
def Key.same (a b : Key) : Bool :=
  match a.value, b.value with
  | .float .notANumber, .float .notANumber => a.node == b.node
  | v, w => Value.sameKey v w

/-- What a node is known to be. -/
inductive Known where
  | scalar (key : Key)
  /-- A collection that is not looked into yet. -/
  | waiting
  | list (items : List Nat)
  | pairs (items : List (Nat × Nat))
  | dict (entries : List (Key × Nat))
  | set (items : List Key)

/-- How far the nodes of a graph are known. -/
structure Discovery where
  nodes : Array Node
  known : Array (Option Known)
  /-- The collections that are not looked into yet, in reverse. -/
  queue : List Nat := []

/-- Adds an entry. A key that is there keeps its place. -/
def insertKey (key : Key) (value : Nat) : List (Key × Nat) → List (Key × Nat)
  | [] => [(key, value)]
  | (k, v) :: rest =>
    if k.same key then (k, value) :: rest else (k, v) :: insertKey key value rest

/-- The text of a node whose tag makes it a scalar. A dictionary has the text of its default
value, which may be a dictionary in turn. -/
def textOf (nodes : Array Node) : (fuel : Nat) → Nat → Except Fault (List Char)
  | 0, _ => .error .stackOverflow
  | fuel + 1, i =>
    match (node nodes i).content with
    | .scalar s => .ok s
    | .list _ => .error .malformedYaml
    | .dict es =>
      match es.find? fun e => (node nodes e.1).tag = .default with
      | some (_, value) => textOf nodes fuel value
      | none => .error .malformedYaml

/-- Whether a tag is one of a collection. -/
def Tag.isCollection : Tag → Bool
  | .list | .dict | .set | .orderedMap | .pairs => true
  | _ => false

/-- Whether a tag has no values. -/
def Tag.isBare : Tag → Bool
  | .merge | .default | .other _ => true
  | _ => false

/-- The scalar that a node is. A moment is never written as a dictionary. -/
def scalarAt (nodes : Array Node) (i : Nat) : Except Fault Key := do
  let n := node nodes i
  if n.tag.isBare then throw .malformedYaml
  let s ← textOf nodes (nodes.size + 1) i
  if n.tag = .timestamp && isDict nodes i then throw (.notText "list")
  return { value := ← scalarValue n.tag s, node := if isWordForNaN s then none else some i }

namespace Discovery

/-- A step of a discovery. -/
abbrev Step := StateT Discovery (Except Fault)

/-- Says what a node is. -/
def note (i : Nat) (k : Known) : Step Unit :=
  modify fun p => { p with known := p.known.modify i fun _ => some k }

/-- Meets a node: a scalar has its value at once, and a collection is put into the queue. -/
def meet (i : Nat) : Step Unit := do
  let p ← get
  match p.known.getD i none with
  | some _ => return
  | none =>
    if (node p.nodes i).tag.isCollection then
      note i .waiting
      modify fun p => { p with queue := i :: p.queue }
    else note i (.scalar (← scalarAt p.nodes i))

/-- Meets a key. Collections are no keys. -/
def meetKey (i : Nat) : Step Key := do
  meet i
  match (← get).known.getD i none with
  | some (.scalar key) => return key
  | _ => throw .malformedYaml

/-- Meets the keys and values of a dictionary, after its merge keys are followed. -/
def meetEntries (i : Nat) : Step (List (Key × Nat)) := do
  match Graph.merged? (← get).nodes i with
  | none => throw .malformedYaml
  | some nodes =>
    modify fun p => { p with nodes }
    (entries nodes i).foldlM (fun es e => do
      let key ← meetKey e.1
      meet e.2
      return insertKey key e.2 es) []

/-- Meets the only entry of a dictionary. -/
def meetPair (i : Nat) : Step (Nat × Nat) := do
  match (node (← get).nodes i).content with
  | .dict [(k, v)] =>
    meet k
    meet v
    return (k, v)
  | _ => throw .malformedYaml

/-- Looks into a collection. -/
def lookInto (i : Nat) : Step Unit := do
  let n := node (← get).nodes i
  match n.tag, n.content with
  | .list, .list items =>
    items.forM meet
    note i (.list items)
  | .dict, .dict _ => note i (.dict (← meetEntries i))
  | .set, .dict _ => note i (.set ((← meetEntries i).map (·.1)))
  | .orderedMap, .list items | .pairs, .list items => note i (.pairs (← items.mapM meetPair))
  | _, _ => throw .malformedYaml

/-- Looks into the collections of the queue, and then into those that were met there. Every
round looks into a new one. -/
def lookIntoAll : (fuel : Nat) → Step Unit
  | 0 => return
  | fuel + 1 => do
    match (← get).queue with
    | [] => return
    | queue =>
      modify fun p => { p with queue := [] }
      queue.reverse.forM lookInto
      lookIntoAll fuel

/-- The value of the node of a collection, if its parts are known together with the nodes around
them that they refer to. A collection that refers to itself, or is referred to from within another
one that it refers to, has a label. -/
def collected {α : Type} (i : Nat) (around : List Nat) (make : List α → Value)
    (parts : List (α × List Nat)) : Value × List Nat :=
  let free := around.filter fun j => parts.any (·.2.contains j)
  let v := make (parts.map (·.1))
  (if free.isEmpty then v else .loop i v, free.filter (· ≠ i))

/-- The value of a node inside some collections, and those of them that it refers to. A collection
does not lie more deeply than there are nodes. -/
def valueAt (known : Array (Option Known)) :
    (fuel : Nat) → (around : List Nat) → Nat → Value × List Nat
  | 0, _, _ => (.null, [])
  | fuel + 1, around, i =>
    let inside := i :: around
    if around.contains i then (.again i, [i])
    else
      match known.getD i none with
      | some (.scalar key) => (key.value, [])
      | some (.set keys) => (Value.ofMembers (keys.map (·.value)), [])
      | some (.list items) => collected i inside .list (items.map (valueAt known fuel inside))
      | some (.pairs items) =>
        collected i inside .list (items.map fun e =>
          let (k, free) := valueAt known fuel inside e.1
          let (v, free') := valueAt known fuel inside e.2
          (.tuple [k, v], free ++ free'))
      | some (.dict es) =>
        collected i inside .dict (es.map fun e =>
          let (v, free) := valueAt known fuel inside e.2
          ((e.1.value, v), free))
      | _ => (.null, [])

end Discovery

/-- The value of a graph. -/
def Graph.value (g : Graph) : Except Fault Value := do
  let start : Discovery := { nodes := g.nodes, known := g.nodes.map fun _ => none }
  let steps : Discovery.Step Unit := do
    Discovery.meet g.root
    Discovery.lookIntoAll (g.nodes.size + 1)
  let (_, d) ← steps start
  return (Discovery.valueAt d.known (g.nodes.size + 1) [] g.root).1

/-- The value of a YAML text. A text without a document is null. -/
def read (text : List Char) : Except Fault Value :=
  if !text.all isAllowed then .error .malformedYaml
  else do
    let (ts, fault) := Token.ofText text
    match ← Graph.ofTokens ts fault with
    | none => return .null
    | some g => g.value

end Bylaws.Yaml
