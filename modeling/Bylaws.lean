import Bylaws.Arguments
import Bylaws.Body
import Bylaws.CommandLine
import Bylaws.Decimal.Binary64
import Bylaws.Decimal.Float
import Bylaws.Decimal.Integer
import Bylaws.Decimal.Shortest
import Bylaws.Directive
import Bylaws.Document
import Bylaws.Fault
import Bylaws.Folder
import Bylaws.Forest.Basic
import Bylaws.Forest.Check
import Bylaws.Forest.Edit
import Bylaws.Forest.Import
import Bylaws.Html.Element
import Bylaws.Html.Layout
import Bylaws.Index
import Bylaws.Json.Reader
import Bylaws.Json.Writer
import Bylaws.Machine
import Bylaws.Main
import Bylaws.Numbering
import Bylaws.Numeral
import Bylaws.Outline
import Bylaws.Paragraph
import Bylaws.Path
import Bylaws.Proofs.Forest.Basic
import Bylaws.Proofs.Forest.Hole
import Bylaws.Proofs.Sorting
import Bylaws.Proofs.Store.Action
import Bylaws.Proofs.Store.Descent
import Bylaws.Proofs.Store.Moves
import Bylaws.Proofs.Store.Shows
import Bylaws.Proofs.Store.Transaction
import Bylaws.Resolution
import Bylaws.Settings
import Bylaws.Sorting
import Bylaws.Store.Basic
import Bylaws.Store.Lineage
import Bylaws.Store.Saved
import Bylaws.Text.Blank
import Bylaws.Text.Digit
import Bylaws.Text.Lowercase
import Bylaws.Text.Parts
import Bylaws.Text.Printable
import Bylaws.Text.Quoted
import Bylaws.Text.Surrogate
import Bylaws.Text.Utf8
import Bylaws.Topic
import Bylaws.Value.Basic
import Bylaws.Value.Calendar
import Bylaws.Value.SetOrder
import Bylaws.Value.Text
import Bylaws.Yaml.BlockText
import Bylaws.Yaml.Character
import Bylaws.Yaml.Cursor
import Bylaws.Yaml.Graph
import Bylaws.Yaml.Merge
import Bylaws.Yaml.PlainText
import Bylaws.Yaml.Property
import Bylaws.Yaml.QuotedText
import Bylaws.Yaml.Reader
import Bylaws.Yaml.Scalar
import Bylaws.Yaml.Tag
import Bylaws.Yaml.Token.Basic
import Bylaws.Yaml.Token.Reading
import Bylaws.Yaml.Writer
import Bylaws.Proofs.Session.Runs
import Bylaws.Proofs.DocumentOrder.Depths
import Bylaws.Proofs.DocumentOrder.Splices
import Bylaws.Proofs.Digit
import Bylaws.Proofs.Token
import Bylaws.Proofs.Directive
import Bylaws.Proofs.Outline
import Bylaws.Proofs.Reimport
import Bylaws.Proofs.NormalForm
import Bylaws.Proofs.Forest.Shown
import Bylaws.Proofs.Index
import Bylaws.Proofs.Rendering.Siblings
import Bylaws.Proofs.Rendering.Omission
import Bylaws.Proofs.Rendering.Scene
import Bylaws.Proofs.Rendering.Markup
import Bylaws.Proofs.Lookup
import Bylaws.Proofs.Settings
import Bylaws.Proofs.Forest.Media
import Bylaws.Proofs.Rendering.Dependence
import Bylaws.Proofs.Session.Media
import Bylaws.Proofs.Session.Failures
import Bylaws.Proofs.Numeral
import Bylaws.Proofs.Numeral.Words
import Bylaws.Proofs.Numeral.Roman
import Bylaws.Proofs.Reference
import Bylaws.Proofs.DocumentOrder.Earlier
import Bylaws.Proofs.Rendering.Reader
import Bylaws.Proofs.Rendering.Reading
import Bylaws.Proofs.Rendering.Portions
import Bylaws.Proofs.Rendering.Counting
import Bylaws.Proofs.Session.Built
import Bylaws.Proofs.Forest.Rename
import Bylaws.Proofs.Store.Mirror
import Bylaws.Proofs.Forest.Mirror
import Bylaws.Proofs.Rendering.Mirror
import Bylaws.Proofs.Session.Mirror
import Bylaws.Proofs.Session.Documents
import Bylaws.Proofs.Forest.Concatenation
import Bylaws.Proofs.Folder
import Bylaws.Proofs.CommandLine.Accumulation
import Bylaws.Proofs.Forest.Faults
import Bylaws.Proofs.Forest.Acceptance
import Bylaws.Proofs.Json.Tree
import Bylaws.Proofs.CommandLine.Faults
import Bylaws.Proofs.CommandLine.Levels
import Bylaws.Proofs.CommandLine.Endings
import Bylaws.Proofs.Ranges
import Bylaws.Proofs.Topic
import Bylaws.Proofs.Blanks
import Bylaws.Proofs.Session.Undo
import Bylaws.Proofs.Substitution
import Bylaws.Proofs.DocumentOrder.Walk
import Bylaws.Proofs.Decimal
import Bylaws.Proofs.Forest.Check
import Bylaws.Proofs.Store.Arena
import Bylaws.Proofs.Numbering
import Bylaws.Proofs.Lowercase
import Bylaws.Proofs.Machine
import Bylaws.Proofs.Settings.Calls
