import MatcherGen.Batch
import MatcherGen.Code.Comment
import MatcherGen.Code.Expr
import MatcherGen.Code.File
import MatcherGen.Code.Layout
import MatcherGen.CommandLine.Flags
import MatcherGen.CommandLine.Run
import MatcherGen.Diff
import MatcherGen.Emission.ClassTest
import MatcherGen.Emission.Cont
import MatcherGen.Emission.Emit
import MatcherGen.Log
import MatcherGen.Main
import MatcherGen.Manifest
import MatcherGen.Options
import MatcherGen.Pattern.Analysis
import MatcherGen.Pattern.Diagnostic
import MatcherGen.Pattern.Listing
import MatcherGen.Pattern.Node
import MatcherGen.Pattern.Piece
import MatcherGen.Pattern.Reader
import MatcherGen.Pattern.Sexp
import MatcherGen.Session
import MatcherGen.Storage.Disk
import MatcherGen.Storage.Glob
import MatcherGen.Storage.Path
import MatcherGen.Text.Blank
import MatcherGen.Text.CaseMap
import MatcherGen.Text.Glyph
import MatcherGen.Text.Letters
import MatcherGen.Text.Lines
import MatcherGen.Text.Number
import MatcherGen.Text.Printable
import MatcherGen.Text.Quoted
import MatcherGen.Text.Ranges
import MatcherGen.Yaml.Cursor
import MatcherGen.Yaml.Event
import MatcherGen.Yaml.Fault
import MatcherGen.Yaml.Node
import MatcherGen.Yaml.Plain
import MatcherGen.Yaml.Record
import MatcherGen.Yaml.Scalar
import MatcherGen.Yaml.Token
import MatcherGen.Proofs.Execution
import MatcherGen.Proofs.Meaning
import MatcherGen.Proofs.ClassLowering
import MatcherGen.Proofs.Making
import MatcherGen.Proofs.Preservation
import MatcherGen.Proofs.StaticCheck
import MatcherGen.Proofs.ReaderSteps
import MatcherGen.Proofs.Progress
import MatcherGen.Proofs.Classes
import MatcherGen.Proofs.Validity
import MatcherGen.Proofs.Locality
import MatcherGen.Proofs.Fronts
import MatcherGen.Proofs.Composition
import MatcherGen.Proofs.Braces
import MatcherGen.Proofs.Skipping
import MatcherGen.Proofs.WellFormed
import MatcherGen.Proofs.Walks
import MatcherGen.Proofs.Stubs
import MatcherGen.Proofs.Switches
import MatcherGen.Proofs.Leftover
import MatcherGen.Proofs.Lengths
import MatcherGen.Proofs.Quoting
import MatcherGen.Proofs.Dumps
import MatcherGen.Proofs.Messages
import MatcherGen.Proofs.Comments
import MatcherGen.Proofs.Lexing
import MatcherGen.Proofs.Literals
import MatcherGen.Proofs.Translation
import MatcherGen.Proofs.Paths
import MatcherGen.Proofs.Disks
import MatcherGen.Proofs.Batches
import MatcherGen.Proofs.Expansion
import MatcherGen.Proofs.ManifestRuns
import MatcherGen.Proofs.Scheduling
import MatcherGen.Proofs.LeastLengths
import MatcherGen.Proofs.Marks
import MatcherGen.Proofs.Coverage
import MatcherGen.Proofs.Modes
import MatcherGen.Proofs.Escaping
import MatcherGen.Proofs.NestedRepetition
import MatcherGen.Proofs.WrittenClasses
import MatcherGen.Proofs.ClassExtents
import MatcherGen.Proofs.Declarations
import MatcherGen.Proofs.Bytes
import MatcherGen.Proofs.Lines
import MatcherGen.Proofs.Differences
import MatcherGen.Proofs.Refusals
import MatcherGen.Proofs.CommentLines
import MatcherGen.Proofs.LogLines
