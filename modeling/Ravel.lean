import Ravel.Text.Basic
import Ravel.Text.Glyph
import Ravel.Text.Blank
import Ravel.Text.Number
import Ravel.Text.Printable
import Ravel.Text.Category
import Ravel.Text.Quoted
import Ravel.Text.Line
import Ravel.Fault
import Ravel.Noun.Error
import Ravel.Noun.Basic
import Ravel.Noun.Display
import Ravel.Verb.Basic
import Ravel.Verb.Monadic
import Ravel.Verb.Dyadic
import Ravel.Token.Basic
import Ravel.Token.Error
import Ravel.Token.Scanner
import Ravel.Token.Scan
import Ravel.Tree.Basic
import Ravel.Tree.Parse
import Ravel.Expr.Basic
import Ravel.Expr.Context
import Ravel.Expr.Resolve
import Ravel.Expr.Eval
import Ravel.Settings.Basic
import Ravel.Evaluation
import Ravel.Demo
import Ravel.Help
import Ravel.Session.Command
import Ravel.Session.Basic
import Ravel.Worksheet
import Ravel.Text.Lower
import Ravel.Text.Decimal
import Ravel.Toml.Basic
import Ravel.Toml.Parse
import Ravel.Yaml.Timestamp
import Ravel.Yaml.Basic
import Ravel.Yaml.Cursor
import Ravel.Yaml.Scalar
import Ravel.Yaml.Token
import Ravel.Yaml.Parse
import Ravel.Path
import Ravel.FileTree
import Ravel.Profile.Basic
import Ravel.Profile.Toml
import Ravel.Profile.Yaml
import Ravel.Profile.Load
import Ravel.Environment
import Ravel.Session.Dialogue
import Ravel.CommandLine.Options
import Ravel.CommandLine.Start
import Ravel.CommandLine.Run
import Ravel.Text.Duration
import Ravel.Main
import Ravel.Proofs.Elementwise
import Ravel.Proofs.Addition
import Ravel.Proofs.Reshape
import Ravel.Proofs.Append
import Ravel.Proofs.Select
import Ravel.Proofs.Soundness
import Ravel.Proofs.Grammar
import Ravel.Proofs.Parser
import Ravel.Proofs.Literal
import Ravel.Proofs.Run
import Ravel.Proofs.Display
import Ravel.Proofs.Faults
import Ravel.Proofs.Limits
import Ravel.Proofs.Errors
import Ravel.Proofs.Numerals
import Ravel.Proofs.Concatenation
import Ravel.Proofs.Spelling
import Ravel.Proofs.Composition
import Ravel.Proofs.Readback
import Ravel.Proofs.Lexemes
import Ravel.Proofs.Tokenization
import Ravel.Proofs.Viability
import Ravel.Proofs.Depth
import Ravel.Proofs.Places
import Ravel.Proofs.Layout
import Ravel.Proofs.Observation
import Ravel.Proofs.Offsets
import Ravel.Proofs.Lines
import Ravel.Proofs.Worksheets
import Ravel.Proofs.Changes
import Ravel.Proofs.Scripts
import Ravel.Proofs.Counting
import Ravel.Proofs.Tally
import Ravel.Proofs.Guard
import Ravel.Proofs.Joined
import Ravel.Proofs.Find
import Ravel.Proofs.Rows
import Ravel.Proofs.Written
import Ravel.Proofs.Outline
import Ravel.Proofs.History
import Ravel.Proofs.Resolution
import Ravel.Proofs.Quotation
import Ravel.Proofs.Demonstration
import Ravel.Proofs.Reading
import Ravel.Proofs.Layers
import Ravel.Proofs.Stream
