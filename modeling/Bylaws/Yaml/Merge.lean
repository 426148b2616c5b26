import Bylaws.Yaml.Graph

/-!
# Merge keys

A merge key brings the entries of other dictionaries into the one that holds it, in front of the
dictionary's own. When the merge keys of a dictionary are followed, they are gone from it, and the
sign of a default value among its keys is a text from then on. Both can be seen through every
alias of the nodes. A dictionary may be merged into itself; a merge key is followed only once.
-/

namespace Bylaws.Yaml.Graph

/-- The node with a number. -/
def node (nodes : Array Node) (i : Nat) : Node := nodes.getD i .absent

/-- The entries of a dictionary. -/
def entries (nodes : Array Node) (i : Nat) : List (Nat × Nat) :=
  match (node nodes i).content with
  | .dict es => es
  | _ => []

/-- Gives a dictionary other entries. -/
def setEntries (nodes : Array Node) (i : Nat) (es : List (Nat × Nat)) : Array Node :=
  nodes.modify i fun n => { n with content := .dict es }

/-- Makes a text of the sign of a default value. -/
def asKey (n : Node) : Node := if n.tag = .default then { n with tag := .text } else n

/-- Whether a node is a dictionary. -/
def isDict (nodes : Array Node) (i : Nat) : Bool := (node nodes i).content matches .dict _

/-- The dictionaries that the value of a merge key names. -/
def sources? (nodes : Array Node) (i : Nat) : Option (List Nat) :=
  match (node nodes i).content with
  | .dict _ => some [i]
  | .list items => if items.all (isDict nodes) then some items else none
  | .scalar _ => none

/-- Follows the merge keys of a dictionary, and of those that it merges. Every step follows one
merge key, so there are at most as many steps as entries. Of the dictionaries in a list the first
counts most, so its entries come last. -/
def follow : (fuel : Nat) → Array Node → Nat → Option (Array Node)
  | 0, _, _ => none
  | fuel + 1, nodes, i => do
    let es := entries nodes i
    let before := es.takeWhile fun e => (node nodes e.1).tag ≠ .merge
    match es.drop before.length with
    | [] => return es.foldl (fun nodes e => nodes.modify e.1 asKey) nodes
    | (_, value) :: after =>
      let nodes := setEntries nodes i (before ++ after)
      let (nodes, brought) ← (← sources? nodes value).foldlM (fun (nodes, brought) d => do
        let nodes ← follow fuel nodes d
        return (nodes, entries nodes d ++ brought)) (nodes, [])
      let nodes ← follow fuel nodes i
      return setEntries nodes i (brought ++ entries nodes i)

/-- The number of all entries. -/
def entryCount (nodes : Array Node) : Nat :=
  nodes.foldl (fun n node => match node.content with
    | .dict es => n + es.length
    | _ => n) 0

/-- The nodes when the merge keys of a dictionary are followed. -/
def merged? (nodes : Array Node) (i : Nat) : Option (Array Node) :=
  follow (entryCount nodes + 1) nodes i

end Bylaws.Yaml.Graph
