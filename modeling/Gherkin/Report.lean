import Gherkin.Codec.Encode
import Gherkin.Settings

/-
  What the command writes: a document, or the concrete steps of every example of its outlines. A
  report is a list of pieces, each with the part of the document that it shows.
-/

namespace Gherkin

/-- What the command shows of a document. -/
inductive Action where
  /-- The document itself. -/
  | parse
  /-- The steps of every example. -/
  | expand
deriving DecidableEq

/-- One example of an outline with its steps. -/
structure Expansion where
  scenario : String
  row : Bindings
  steps : List Step

def Expansion.toJson (e : Expansion) : Json :=
  .object [("scenario", .string e.scenario), ("example", e.row.toJson),
    ("steps", .array (e.steps.map Step.toJson))]

/-- The expansions of an outline, in the order of its examples. -/
def Outline.toExpansions (o : Outline) : List Expansion :=
  o.expansions.map fun (row, steps) => ⟨o.name, row, steps⟩

/-- The expansions of the outlines of a feature, in order. -/
def Feature.expansions (f : Feature) : List Expansion := f.outlines.flatMap Outline.toExpansions

namespace Report

/-- The part of a document that a piece shows. -/
inductive Part where
  | feature (name : String)
  | background
  | scenario (name : String)
  | expansion (outline : String)
  | step (text : String)
  | json
  | jsonEnd
deriving DecidableEq

/-- The wording of a failure to write a part. -/
def Part.failure : Part → String
  | feature name => s!"failed to write feature '{name}'"
  | background => "failed to write background"
  | scenario name => s!"failed to write scenario '{name}'"
  | expansion outline => s!"failed to write expansion of '{outline}'"
  | step text => s!"failed to write step '{text}'"
  | json => "failed to encode JSON"
  | jsonEnd => "failed to terminate JSON output"

/-- A text to be written and the part that it shows. -/
structure Piece where
  text : String
  part : Part
deriving DecidableEq

/-- The tags of a summary line. -/
def tagText (tags : List Tag) : String := String.join (tags.map fun t => " @" ++ t.name)

/-- The summary line of a scenario. -/
def scenarioLine : Scenario → String
  | .simple b =>
    s!"  Scenario: {b.name}{tagText b.tags} ({b.steps.length} steps)"
  | .outline o =>
    s!"  Scenario Outline: {o.name}{tagText o.tags} " ++
      s!"({o.steps.length} steps, {o.examples.length} examples)"

/-- A line of a summary. -/
def line (text : String) (part : Part) : Piece := ⟨text ++ "\n", part⟩

/-- The summary of a document: a line each for the feature, its background and its scenarios. -/
def summary (f : Feature) : List Piece :=
  let feature :=
    line s!"Feature: {f.name}{tagText f.tags} ({f.scenarios.length} scenarios)" (.feature f.name)
  let background := f.background.toList.map fun b =>
    line s!"  Background: {b.name} ({b.steps.length} steps)" .background
  let scenarios := f.scenarios.map fun s => line (scenarioLine s) (.scenario s.name)
  feature :: background ++ scenarios

/-- The summary of an expansion: a line for the example and a line for each step. -/
def expansionSummary (e : Expansion) : List Piece :=
  let bindings := ", ".intercalate (e.row.entries.map fun (k, v) => s!"{k}={v}")
  line s!"{e.scenario} [{bindings}]" (.expansion e.scenario) ::
    e.steps.map fun s => line s!"  {s.keyword.word} {s.text}" (.step s.text)

/-- A JSON text and the end of its last line. -/
def jsonPieces (text : String) : List Piece := [⟨text, .json⟩, ⟨"\n", .jsonEnd⟩]

/-- The pieces of a report. -/
def pieces (action : Action) (format : Format) (f : Feature) : List Piece :=
  let json := match action with
    | .parse => f.toJson
    | .expand => .array (f.expansions.map Expansion.toJson)
  match format, action with
  | .json, _ => jsonPieces json.toCompact
  | .prettyJson, _ => jsonPieces json.toIndented
  | .summary, .parse => summary f
  | .summary, .expand => f.expansions.flatMap expansionSummary

end Report

end Gherkin
