import Gherkin.Line
import Gherkin.Text.Lines
import Gherkin.Reader
import Gherkin.Bindings
import Gherkin.Feature
import Gherkin.Cursor
import Gherkin.Window
import Gherkin.Event
import Gherkin.Parse.Opening
import Gherkin.Parse.Argument
import Gherkin.Logged
import Gherkin.Parse.Scenario
import Gherkin.Parse.Feature
import Gherkin.Decimal.Shortest
import Gherkin.Json.Number
import Gherkin.Json.Quoted
import Gherkin.Json.Draft
import Gherkin.Text.Shown
import Gherkin.Codec.Decode
import Gherkin.Command
import Gherkin.Main
import Gherkin.Proofs.Documents
import Gherkin.Proofs.Text
import Gherkin.Proofs.Acceptance
import Gherkin.Proofs.Bindings
import Gherkin.Proofs.Invariant
import Gherkin.Proofs.Accounting
import Gherkin.Proofs.Codec
import Gherkin.Proofs.Lossless
import Gherkin.Proofs.Pieces
import Gherkin.Proofs.Likeness
import Gherkin.Proofs.Blocks
import Gherkin.Proofs.Spelling
import Gherkin.Proofs.Writing
import Gherkin.Proofs.Tables
import Gherkin.Proofs.Stops
import Gherkin.Proofs.Failures
import Gherkin.Proofs.Positions
import Gherkin.Proofs.Located
import Gherkin.Proofs.FirstFault
import Gherkin.Proofs.Layout
import Gherkin.Proofs.Shapes
import Gherkin.Proofs.Faithful
import Gherkin.Proofs.Cuts
import Gherkin.Proofs.Unfinished
import Gherkin.Proofs.Expansions
import Gherkin.Proofs.Placeholders
import Gherkin.Proofs.Simulation
import Gherkin.Proofs.Truncation
import Gherkin.Proofs.Trivia
import Gherkin.Proofs.Substitution
import Gherkin.Proofs.Rows
import Gherkin.Proofs.Fences
import Gherkin.Proofs.Utf8
import Gherkin.Proofs.Scans
import Gherkin.Proofs.Parts
import Gherkin.Proofs.DocStrings
import Gherkin.Proofs.Splits
import Gherkin.Proofs.Columns
import Gherkin.Proofs.Summaries
import Gherkin.Proofs.Arguments
import Gherkin.Proofs.Invocations
import Gherkin.Proofs.Consistency
import Gherkin.Proofs.Records
import Gherkin.Proofs.Lookahead
import Gherkin.Proofs.TagSearch
import Gherkin.Proofs.Keywords
