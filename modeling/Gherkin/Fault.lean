import Gherkin.Keyword

/-
  Why a text is not a document. A fault is a cause and the line that shows it; the kind of a fault
  and its wording are functions of the cause.
-/

namespace Gherkin

/-- What stands next in a text, without its contents. -/
inductive Shape where
  | «end»
  | tags
  | heading (h : Heading)
  | step
  | fence
  | row
  | text
deriving DecidableEq

/-- How a shape is called in a message. -/
def Shape.describe : Shape → String
  | «end» => "end of input"
  | tags => "tag line"
  | heading h => s!"'{h.label}'"
  | step => "step"
  | fence => "doc string"
  | row => "table row"
  | text => "free text"

/-- What the grammar asks for at a place. -/
inductive Wanted where
  | heading (h : Heading)
  | scenario
  | sectionAfterTags
  | scenarioEnd
  | step
  | examplesTable
  | tableRow
deriving DecidableEq

/-- How a wanted thing is called in a message. -/
def Wanted.describe : Wanted → String
  | heading h => s!"'{h.label}'"
  | scenario => "'Scenario:' or 'Scenario Outline:'"
  | sectionAfterTags => "'Background:', 'Scenario:' or 'Scenario Outline:' after tags"
  | scenarioEnd => "end of scenario"
  | step => "a step"
  | examplesTable => "an examples table"
  | tableRow => "a table row"

namespace Fault

/-- The kinds of fault. -/
inductive Kind where
  | missingExamples
  | unexpectedLine
  | unexpectedEnd
  | argumentConflict
  | malformedTable
  | unknownKeyword
  | malformed
deriving DecidableEq

/-- The short label of a kind. -/
def Kind.label : Kind → String
  | missingExamples => "missing examples"
  | unexpectedLine => "unexpected line"
  | unexpectedEnd => "unexpected end of input"
  | argumentConflict => "step argument conflict"
  | malformedTable => "malformed table"
  | unknownKeyword => "unknown keyword"
  | malformed => "syntax error"

/-- The causes of a fault. -/
inductive Cause where
  /-- A line opens with a heading of the wider language. -/
  | unsupported (opening : String)
  /-- A word of a tag line is no tag. -/
  | badTag (word : String)
  /-- A row does not start with a pipe. -/
  | rowUnopened
  /-- A row does not end with an unescaped pipe. -/
  | rowUnclosed
  /-- The text ends inside a doc string. -/
  | fenceUnclosed
  /-- The grammar wants one thing and another is there; the kind is for any line, the end of the
  text has its own. -/
  | unexpected (kind : Kind) (wanted : Wanted) (found : Shape)
  /-- A production was entered at a line that does not open it. -/
  | misplaced (wanted : Wanted)
  /-- A line was taken where the text had ended. -/
  | exhausted
  /-- A feature ends without a scenario. -/
  | noScenarios (feature : String)
  /-- An outline ends without examples. -/
  | missingExamples (outline : String)
  /-- Tags stand before an examples heading. -/
  | taggedExamples
  /-- A plain scenario has an examples heading. -/
  | examplesInScenario
  /-- A step has a second argument directly after its first. -/
  | argumentConflict (attached found : Shape)
  /-- A table has no rows under its header. -/
  | headerOnly (line : Nat) (found : Shape)
  /-- A header names a column twice. -/
  | duplicateColumn (name : String)
  /-- A row is not as wide as the header. -/
  | unevenRow (cells header : Nat)
  /-- An examples table of an outline has another header than the first one. -/
  | headerDiffers (header first : List String)
  /-- A doc string holds something that is no captured line. -/
  | interrupted (line : Nat)
deriving DecidableEq

/-- The kind of fault that a cause makes. -/
def Cause.kind : Cause → Kind
  | unsupported _ => .unknownKeyword
  | badTag _ | misplaced _ | interrupted _ => .malformed
  | rowUnopened | rowUnclosed | duplicateColumn _ | unevenRow _ _ | headerDiffers _ _ =>
    .malformedTable
  | fenceUnclosed | exhausted | noScenarios _ => .unexpectedEnd
  | unexpected kind _ found => if found = .end then .unexpectedEnd else kind
  | Cause.missingExamples _ => .missingExamples
  | taggedExamples | examplesInScenario => .unexpectedLine
  | Cause.argumentConflict _ _ => .argumentConflict
  | headerOnly _ found => if found = .end then .unexpectedEnd else .malformedTable

/-- The wording of a cause. -/
def Cause.message : Cause → String
  | unsupported opening => s!"'{opening}' is not supported"
  | badTag word => s!"expected '@name' in tag line, found '{word}'"
  | rowUnopened => "table row must start with '|'"
  | rowUnclosed => "table row must end with '|'"
  | fenceUnclosed => "doc string is never closed"
  | unexpected _ wanted found => s!"expected {wanted.describe}, found {found.describe}"
  | misplaced wanted => s!"expected {wanted.describe}"
  | exhausted => "unexpected end of input"
  | noScenarios feature => s!"feature '{feature}' has no scenarios"
  | Cause.missingExamples outline => s!"scenario outline '{outline}' has no 'Examples:' table"
  | taggedExamples => "tags are not allowed before 'Examples:'"
  | examplesInScenario => "'Examples:' is only valid under 'Scenario Outline:'"
  | Cause.argumentConflict attached found =>
    let held := if attached = .row then "a table" else "a doc string"
    s!"step already has {held}; found another {found.describe}"
  | headerOnly line _ => s!"table starting on line {line} has a header row but no data rows"
  | duplicateColumn name => s!"table header contains duplicate column '{name}'"
  | unevenRow cells header => s!"table row has {cells} cells but the header has {header}"
  | headerDiffers header first =>
    let header := ", ".intercalate header
    let first := ", ".intercalate first
    s!"examples header [{header}] differs from the first examples header [{first}]"
  | interrupted line => s!"doc string opened on line {line} was interrupted"

end Fault

/-- A cause at the line that shows it. -/
structure Fault where
  line : Nat
  cause : Fault.Cause
deriving DecidableEq

namespace Fault

/-- The kind of the fault. -/
def kind (f : Fault) : Kind := f.cause.kind

/-- The wording of the fault, without its place. -/
def message (f : Fault) : String := f.cause.message

/-- The fault in full: line, kind and wording. -/
def describe (f : Fault) : String := s!"line {f.line}: {f.kind.label}: {f.message}"

end Fault

end Gherkin
