import Bylaws.Text.Lowercase
import Bylaws.Text.Parts

/-!
# Paths of files

A path is a row of names. Empty names and single dots between slashes say nothing, so they are
left out, and two spellings of a path are one path. Only two slashes at the head of a path, no more
and no less, are kept.
-/

namespace Bylaws

structure Path where
  parts : List String
  /-- The slashes at the head of the path, none, one or two. -/
  root : String := ""
  deriving DecidableEq, Repr, Inhabited

namespace Path

/-- The slashes that a text keeps at its head. -/
def rootOf (s : List Char) : String :=
  match (s.takeWhile (· = '/')).length with
  | 0 => ""
  | 2 => "//"
  | _ => "/"

/-- The path that a text spells. -/
def ofText (s : String) : Path where
  parts := ((Text.parts '/' s.toList).map String.ofList).filter fun p => p ≠ "" && p ≠ "."
  root := rootOf s.toList

/-- Whether a path begins with a slash. -/
def rooted (p : Path) : Bool := p.root ≠ ""

/-- A path in its shortest spelling. The path of no names is a dot. -/
def text (p : Path) : String :=
  let s := p.root ++ String.intercalate "/" p.parts
  if s.isEmpty then "." else s

/-- The last name of a path. -/
def name (p : Path) : String := p.parts.getLast?.getD ""

/-- The name before its last dot and the rest from that dot on. A dot at either end of the name
does not count. -/
def stemAndSuffix (p : Path) : String × String :=
  let reversed := p.name.toList.reverse
  let ending := reversed.takeWhile (· ≠ '.')
  match reversed.drop ending.length with
  | '.' :: c :: before =>
    if ending.isEmpty then (p.name, "")
    else (String.ofList (c :: before).reverse, String.ofList ('.' :: ending.reverse))
  | _ => (p.name, "")

def stem (p : Path) : String := p.stemAndSuffix.1

def suffix (p : Path) : String := p.stemAndSuffix.2

/-- Whether the name says that a file holds YAML. -/
def isYaml (p : Path) : Bool :=
  let ending := String.ofList (Text.lower p.suffix.toList)
  ending = ".yml" || ending = ".yaml"

/-- The directory that the first name of a path is looked up in. -/
def origin (p : Path) : Path := { parts := [], root := if p.rooted then "/" else "" }

/-- The path one name shorter. -/
def parent (p : Path) : Path := { p with parts := p.parts.dropLast }

/-- The path with one more name. -/
def down (p : Path) (name : String) : Path := { p with parts := p.parts ++ [name] }

/-- The directory around the one that a path leads to. Nothing lies around the root. -/
def up (p : Path) : Path :=
  match p.parts.getLast? with
  | none => if p.rooted then p else p.down ".."
  | some name => if name = ".." then p.down ".." else p.parent

/-- Whether a path leads through another one to something below it. -/
def isBelow (p q : Path) : Bool :=
  p.root == q.root && q.parts.isPrefixOf p.parts && q.parts.length < p.parts.length

example : (ofText "./a//b.YML").text = "a/b.YML" := by decide +kernel

example : (ofText "//").text = "//" ∧ (ofText "///a").text = "/a" := by decide +kernel

example : (ofText "a.b.yml").stemAndSuffix = ("a.b", ".yml") := by decide +kernel

example : (ofText ".yml").suffix = "" ∧ (ofText "a.yml.").suffix = "" := by decide +kernel

end Path

end Bylaws
