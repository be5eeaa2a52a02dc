import Kode.CommandLine
import Kode.Console
import Kode.Decimal
import Kode.Decimal.Layout
import Kode.Decimal.Shortest
import Kode.Disk
import Kode.Golden
import Kode.Input
import Kode.Keyword
import Kode.Lexeme
import Kode.Main
import Kode.Operator
import Kode.Outline
import Kode.ParseError
import Kode.Path
import Kode.Proofs.Arithmetic
import Kode.Proofs.Bare
import Kode.Proofs.Blessing
import Kode.Proofs.Bodies
import Kode.Proofs.Branches
import Kode.Proofs.Carets
import Kode.Proofs.Concatenation
import Kode.Proofs.Coverage
import Kode.Proofs.Covers
import Kode.Proofs.Descent
import Kode.Proofs.Dictionaries
import Kode.Proofs.Disks
import Kode.Proofs.Erasure
import Kode.Proofs.Events
import Kode.Proofs.Exits
import Kode.Proofs.Extents
import Kode.Proofs.Faithful
import Kode.Proofs.Golden
import Kode.Proofs.Grammar
import Kode.Proofs.Interference
import Kode.Proofs.Invariant
import Kode.Proofs.Layout
import Kode.Proofs.LetterCase
import Kode.Proofs.Literals
import Kode.Proofs.LongestRuns
import Kode.Proofs.Marks
import Kode.Proofs.Neighbours
import Kode.Proofs.Nesting
import Kode.Proofs.Numerals
import Kode.Proofs.Ordering
import Kode.Proofs.Parsing
import Kode.Proofs.Pictures
import Kode.Proofs.Positions
import Kode.Proofs.Precedence
import Kode.Proofs.Printing
import Kode.Proofs.Progress
import Kode.Proofs.Provenance
import Kode.Proofs.Purity
import Kode.Proofs.Reading
import Kode.Proofs.Rejection
import Kode.Proofs.Relocation
import Kode.Proofs.Reporting
import Kode.Proofs.RoundTrip
import Kode.Proofs.Scoping
import Kode.Proofs.Session
import Kode.Proofs.Settling
import Kode.Proofs.Shifts
import Kode.Proofs.Showing
import Kode.Proofs.Spelling
import Kode.Proofs.Streams
import Kode.Proofs.Texts
import Kode.Proofs.Tiling
import Kode.Proofs.Unlinked
import Kode.Proofs.Unrolling
import Kode.Proofs.Variables
import Kode.Report
import Kode.Run
import Kode.RuntimeError
import Kode.Scope
import Kode.Source
import Kode.Span
import Kode.Statement
import Kode.Statement.Evaluate
import Kode.Statement.Format
import Kode.Statement.Outline
import Kode.Statement.Parse
import Kode.Statement.Window
import Kode.Text.Blank
import Kode.Text.Digits
import Kode.Text.Lossy
import Kode.Text.Offset
import Kode.Text.Order
import Kode.Text.Quoted
import Kode.Text.Unprintable
import Kode.Token
import Kode.Token.Cursor
import Kode.Token.Tokenize
import Kode.Value
import Kode.Value.Integer
import Kode.Value.Literal
import Kode.Value.Operation
