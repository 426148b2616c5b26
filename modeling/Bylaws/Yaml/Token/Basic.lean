import Bylaws.Yaml.Property

/-!
# Tokens of YAML

What a YAML text is made of. The blocks that indentation makes begin and end with tokens of
their own, as brackets do.
-/

namespace Bylaws.Yaml

inductive Token where
  | declaration (d : Declaration)
  | documentStart
  | documentEnd
  | blockList
  | blockDict
  | blockEnd
  | openList
  | closeList
  | openDict
  | closeDict
  /-- The dash of an item in a block. -/
  | item
  | comma
  | key
  | value
  | alias (name : String)
  | anchor (name : String)
  | tag (t : TagText)
  | scalar (text : List Char) (plain : Bool)
  deriving DecidableEq, Repr

end Bylaws.Yaml
