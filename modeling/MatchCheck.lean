import MatchCheck.Cache.Basic
import MatchCheck.Cache.File
import MatchCheck.Check.Basic
import MatchCheck.CommandLine.Basic
import MatchCheck.CommandLine.Reader
import MatchCheck.Config.Basic
import MatchCheck.Config.Find
import MatchCheck.Config.Toml
import MatchCheck.Decimal.Binary
import MatchCheck.Decimal.Shortest
import MatchCheck.Diagnostic.Basic
import MatchCheck.Diagnostic.Code
import MatchCheck.Diagnostic.Explanation
import MatchCheck.Diagnostic.Json
import MatchCheck.Diagnostic.Text
import MatchCheck.Disk.Snapshot
import MatchCheck.Editor.Highlight
import MatchCheck.Editor.Json
import MatchCheck.Editor.Marker
import MatchCheck.Files.Basic
import MatchCheck.Files.Change
import MatchCheck.Files.Directory
import MatchCheck.Files.Place
import MatchCheck.Fix.Basic
import MatchCheck.Hash.Sip
import MatchCheck.Json.Basic
import MatchCheck.Json.Printer
import MatchCheck.Json.Reader
import MatchCheck.Main
import MatchCheck.Path.Basic
import MatchCheck.Program.Basic
import MatchCheck.Program.Grammar
import MatchCheck.Program.Reader
import MatchCheck.Program.SyntaxError
import MatchCheck.Run.Basic
import MatchCheck.Run.Check
import MatchCheck.Run.Fix
import MatchCheck.Run.Outcome
import MatchCheck.Run.Show
import MatchCheck.Run.Sources
import MatchCheck.Shape.Basic
import MatchCheck.Shape.Coverage
import MatchCheck.Shape.Resolve
import MatchCheck.Signature.Basic
import MatchCheck.Signature.Declare
import MatchCheck.Source.Basic
import MatchCheck.Source.Position
import MatchCheck.Source.Span
import MatchCheck.Text.Cut
import MatchCheck.Text.Length
import MatchCheck.Text.Line
import MatchCheck.Text.Printable
import MatchCheck.Text.Quoted
import MatchCheck.Text.Split
import MatchCheck.Text.Trim
import MatchCheck.Token.Basic
import MatchCheck.Token.Kind
import MatchCheck.Token.Lexeme
import MatchCheck.Toml.Basic
import MatchCheck.Toml.Document
import MatchCheck.Toml.Number
import MatchCheck.Toml.Text
import MatchCheck.Proofs.Signature.Names
import MatchCheck.Proofs.Value.Basic
import MatchCheck.Proofs.Value.Matching
import MatchCheck.Proofs.Coverage.Missing
import MatchCheck.Proofs.Coverage.Pruning
import MatchCheck.Proofs.Coverage.Useful
import MatchCheck.Proofs.Coverage.Agreement
import MatchCheck.Proofs.Value.Resolution
import MatchCheck.Proofs.Check.Soundness
import MatchCheck.Proofs.Program.Rank
import MatchCheck.Proofs.Program.Reader
import MatchCheck.Proofs.Program.Depth
import MatchCheck.Proofs.Program.Recovery
import MatchCheck.Proofs.Program.Relocated
import MatchCheck.Proofs.Check.Relocated
import MatchCheck.Proofs.Program.Nesting
import MatchCheck.Proofs.Check.Genuine
import MatchCheck.Proofs.Program.Extent
import MatchCheck.Proofs.Diagnostic.Codes
import MatchCheck.Proofs.Diagnostic.Sorted
import MatchCheck.Proofs.Signature.Declared
import MatchCheck.Proofs.Check.Order
import MatchCheck.Proofs.Check.Options
import MatchCheck.Proofs.Check.Reordered
import MatchCheck.Proofs.Token.Tiling
import MatchCheck.Proofs.Program.Leaf
import MatchCheck.Proofs.Text.Lines
import MatchCheck.Proofs.Token.Place
import MatchCheck.Proofs.Token.Munch
import MatchCheck.Proofs.Editor.Highlight
import MatchCheck.Proofs.Source.Lines
import MatchCheck.Proofs.Program.Tree
import MatchCheck.Proofs.Program.Unambiguous
import MatchCheck.Proofs.Program.Reading
import MatchCheck.Proofs.Program.Derivation
import MatchCheck.Proofs.Fix.Splice
import MatchCheck.Proofs.Fix.Suggested
import MatchCheck.Proofs.Fix.Made
import MatchCheck.Proofs.Program.Outline
import MatchCheck.Proofs.Fix.Patch
import MatchCheck.Proofs.Program.Spans
import MatchCheck.Proofs.Program.Relabel
import MatchCheck.Proofs.Fix.NewArm
import MatchCheck.Proofs.Fix.Repair
import MatchCheck.Proofs.Fix.Reread
import MatchCheck.Proofs.Fix.ReadBack
import MatchCheck.Proofs.Fix.Depth
import MatchCheck.Proofs.Fix.Safety
import MatchCheck.Proofs.Check.Moved
import MatchCheck.Proofs.Coverage.Completion
import MatchCheck.Proofs.Coverage.Removal
import MatchCheck.Proofs.Coverage.SameShapes
import MatchCheck.Proofs.Fix.Completion
import MatchCheck.Proofs.Program.Errors
import MatchCheck.Proofs.Check.Blocks
import MatchCheck.Proofs.Check.Typing
import MatchCheck.Proofs.Check.Arms
import MatchCheck.Proofs.Check.Scrutinee
import MatchCheck.Proofs.Json.Written
import MatchCheck.Proofs.Diagnostic.Json
import MatchCheck.Proofs.Check.Renamed
import MatchCheck.Proofs.Files.Listed
import MatchCheck.Proofs.Files.Ordered
import MatchCheck.Proofs.Files.WellFormed
import MatchCheck.Proofs.Cache.Kept
import MatchCheck.Proofs.Run.Remembered
import MatchCheck.Proofs.Run.History
import MatchCheck.Proofs.Run.WellFormed
import MatchCheck.Proofs.Fix.AllMade
import MatchCheck.Proofs.Program.Blame
import MatchCheck.Proofs.Diagnostic.Carets
import MatchCheck.Proofs.Run.Repeats
import MatchCheck.Proofs.Files.Descent
import MatchCheck.Proofs.Run.Below
import MatchCheck.Proofs.Source.Positions
import MatchCheck.Proofs.Program.Counter
import MatchCheck.Proofs.Program.OpenLists
import MatchCheck.Proofs.Program.NestingLimit
