import Bylaws.Fault

/-!
# Directives

The text of an imported paragraph may begin with tokens that say what the paragraph is: its
name, its topic, that it continues the paragraph before it, that it is a heading of some
level, that its children form a list. Each token is read at most once, in the order of the
grammar, and what remains is the body. `Fields.source` writes the tokens back.

Conditions and insertions look alike but stay in the body; see `Bylaws.Body`.
-/

namespace Bylaws

/-- What a paragraph says, apart from its place in the document. -/
structure Fields where
  body : String := ""
  name : Option String := none
  topic : Option String := none
  /-- The level of a heading, from one. -/
  heading : Option Int := none
  /-- The paragraph continues the one before it. -/
  continuation : Bool := false
  /-- The children of the paragraph form a list. -/
  list : Bool := false
  deriving DecidableEq, Repr, Inhabited

/-- The kinds of directives. -/
inductive Directive where
  | name
  | topic
  | continuation
  | heading
  | list
  deriving DecidableEq, Repr

/-- A directive as it is written. The digits of a heading may be missing. -/
inductive Token where
  | name (identifier : List Char)
  | topic (identifier : List Char)
  | continuation
  | heading (digits : List Char)
  | list
  deriving DecidableEq, Repr

/-- How every token begins. -/
def mark : List Char := "#rticles#".toList

/-- The characters of names, topics and keys. -/
def isNameChar (c : Char) : Bool := c.isAlpha || c = '_'

/-- The longest identifier at the head of a text and the rest, if there is one. -/
def identifier? (s : List Char) : Option (List Char × List Char) :=
  match s.takeWhile isNameChar with
  | [] => none
  | id => some (id, s.dropWhile isNameChar)

/-- An identifier and the blank that closes a token. -/
def closedIdentifier? (s : List Char) : Option (List Char × List Char) :=
  match identifier? s with
  | some (id, ' ' :: rest) => some (id, rest)
  | _ => none

namespace Directive

/-- The directives in the order in which they are looked for. -/
def grammar : List Directive := [.name, .topic, .continuation, .heading, .list]

/-- The token of one kind at the head of a text, and the text after it. -/
def read? (d : Directive) (text : List Char) : Option (Token × List Char) :=
  match mark.isPrefixOf? text with
  | none => none
  | some s =>
    match d with
    | name =>
      ("name#".toList.isPrefixOf? s).bind fun s =>
        (closedIdentifier? s).map fun (id, rest) => (.name id, rest)
    | topic =>
      ("topic#".toList.isPrefixOf? s).bind fun s =>
        (closedIdentifier? s).map fun (id, rest) => (.topic id, rest)
    | continuation => ("continue ".toList.isPrefixOf? s).map fun rest => (.continuation, rest)
    | heading =>
      ("heading".toList.isPrefixOf? s).bind fun s =>
        match s with
        | ' ' :: rest => some (.heading [], rest)
        | '#' :: s =>
          match s.takeWhile Text.isDigit, s.dropWhile Text.isDigit with
          | d :: ds, ' ' :: rest => some (.heading (d :: ds), rest)
          | _, _ => none
        | _ => none
    | list => ("list ".toList.isPrefixOf? s).map fun rest => (.list, rest)

end Directive

/-- The level of a heading token; without digits it is one. -/
def headingLevel (digits : List Char) : Except Fault Int :=
  if digits.isEmpty then .ok 1
  else if Decimal.digitLimit < digits.length then .error (.integerTooLong digits.length)
  else .ok (Text.digitsValue digits)

/-- Sets the field that a token stands for. -/
def Token.set (t : Token) (f : Fields) : Except Fault Fields :=
  match t with
  | name id => .ok { f with name := some (String.ofList id) }
  | topic id => .ok { f with topic := some (String.ofList id) }
  | continuation => .ok { f with continuation := true }
  | heading digits => (headingLevel digits).map fun n => { f with heading := some n }
  | list => .ok { f with list := true }

namespace Fields

/-- Reads the tokens of a grammar, each once, off the head of a text. -/
def readTokens : List Directive → List Char → Fields → Except Fault Fields
  | [], text, f => .ok { f with body := String.ofList text }
  | d :: grammar, text, f =>
    match d.read? text with
    | none => readTokens grammar text f
    | some (t, rest) => do readTokens grammar rest (← t.set f)

/-- The fields of a text under a grammar. -/
def parseWith (grammar : List Directive) (text : String) : Except Fault Fields :=
  readTokens grammar text.toList {}

def parse (text : String) : Except Fault Fields := parseWith Directive.grammar text

/-- A token whose value is a name, if the name is there and not empty. -/
def namedToken (keyword : String) : Option String → List Char
  | some s => if s.isEmpty then [] else mark ++ keyword.toList ++ '#' :: s.toList ++ [' ']
  | none => []

/-- The token of a heading. Level one is written without a number. A level that is read from a text
is within the limit of digits, so none is asked for here. -/
def headingToken : Option Int → List Char
  | none => []
  | some n =>
    mark ++ "heading".toList ++ (if n = 1 then [] else '#' :: (Decimal.intText n).toList) ++ [' ']

/-- A token that is there or not. -/
def flagToken (keyword : String) (on : Bool) : List Char :=
  if on then mark ++ keyword.toList ++ [' '] else []

/-- The text that the fields are read from: tokens in grammar order, then the body. -/
def source (f : Fields) : String :=
  String.ofList (namedToken "name" f.name ++ namedToken "topic" f.topic ++
    flagToken "continue" f.continuation ++ headingToken f.heading ++ flagToken "list" f.list ++
    f.body.toList)

/-- The fields of a paragraph: the level of a heading is at least one. -/
def check (f : Fields) : Except Fault Fields :=
  match f.heading with
  | some n => if n < 1 then .error (.headingNotPositive n) else .ok f
  | none => .ok f

/-- The fields of a paragraph given by an import text. -/
def ofText (text : String) : Except Fault Fields := do (← parse text).check

end Fields

example : Fields.parse "#rticles#topic#a #rticles#heading#2 B" =
    .ok { body := "B", topic := some "a", heading := some 2 } := rfl

end Bylaws
