import Gherkin.Proofs.Accounting
import Gherkin.Proofs.Lossless
import Gherkin.Report

/-
  The expansions of a document. The rows under the examples headings of a text are found by looking
  at its lines one after the other (`dataRows`), and they are the rows of the outlines' examples
  blocks, in order (`dataRows_accounts`). A document has one expansion for each of these rows, with
  the outline's steps, of which the text is substituted and nothing else (`expansions_rows`), and
  both JSON reports hold these expansions (`expansions_cover_rows`).
-/

namespace Gherkin

open Grammar

/-! ## The data rows of a text -/

namespace Grammar

open Line

/-- Where a row stands: under a step or a heading that has no table, first after an examples
heading, or under the header of an examples table. -/
inductive RowPlace where
  | elsewhere
  | first
  | under (header : List String)

/-- The rows under the headers of examples tables, each with its header; the first line stands at
this place. -/
def dataRows (place : RowPlace) : List Kind → List (List String × List String)
  | [] => []
  | .heading h _ :: ks => dataRows (if h = .examples then .first else .elsewhere) ks
  | .step _ _ :: ks => dataRows .elsewhere ks
  | .row cells :: ks =>
    match place with
    | .elsewhere => dataRows .elsewhere ks
    | .first => dataRows (.under cells) ks
    | .under header => (header, cells) :: dataRows (.under header) ks
  | _ :: ks => dataRows place ks

theorem dataRows_skeleton (place : RowPlace) (ks : List Kind) :
    dataRows place (skeleton ks) = dataRows place ks := by
  unfold skeleton
  induction ks generalizing place with
  | nil => rfl
  | cons k ks ih =>
    cases k with
    | heading h name => exact ih _
    | step keyword text => exact ih _
    | row cells =>
      rw [List.filter_cons_of_pos rfl]
      cases place with
      | elsewhere => exact ih _
      | first => exact ih _
      | under header => exact congrArg ((header, cells) :: ·) (ih _)
    | _ => exact ih place

/-- The data rows of an examples block, each with its header. -/
def Examples.rows (e : Examples) : List (List String × List String) :=
  e.data.map fun cells => (e.header, cells)

/-- The lines hold these data rows, wherever the first of them stands: it is no row. -/
def Holds (ks : List Kind) (rows : List (List String × List String)) : Prop :=
  ∀ place, dataRows place ks = rows

theorem Holds.nil : Holds [] [] := fun _ => rfl

section Holds

variable {ks : List Kind} {rows : List (List String × List String)} (h : Holds ks rows)
include h

theorem Holds.step (s : Step) : Holds (stepKinds s ++ ks) rows := by
  have hrows (cells : List (List String)) :
      dataRows .elsewhere (cells.map .row ++ ks) = rows := by
    induction cells with
    | nil => exact h _
    | cons c cells ih => exact ih
  exact fun _ => hrows (tableRows s)

theorem Holds.steps (steps : List Step) : Holds (steps.flatMap stepKinds ++ ks) rows := by
  induction steps with
  | nil => exact h
  | cons s steps ih =>
    rw [List.flatMap_cons, List.append_assoc]
    exact ih.step s

theorem Holds.examples (e : Examples) : Holds (e.kinds ++ ks) (e.rows ++ rows) := by
  have hdata (data : List (List String)) : dataRows (.under e.header) (data.map .row ++ ks) =
      data.map (fun cells => (e.header, cells)) ++ rows := by
    induction data with
    | nil => exact h _
    | cons cells data ih => exact congrArg ((e.header, cells) :: ·) ih
  exact fun _ => hdata e.data

theorem Holds.blocks (es : List Examples) :
    Holds (es.flatMap Examples.kinds ++ ks) (es.flatMap Examples.rows ++ rows) := by
  induction es with
  | nil => exact h
  | cons e es ih =>
    rw [List.flatMap_cons, List.flatMap_cons, List.append_assoc, List.append_assoc]
    exact ih.examples e

theorem Holds.scenario (s : Scenario) (es : List Examples) :
    Holds (scenarioKinds s es ++ ks) (es.flatMap Examples.rows ++ rows) := by
  rw [scenarioKinds, List.cons_append, List.append_assoc]
  intro place
  cases s <;> exact (h.blocks es).steps _ _

theorem Holds.background (b : Option Block) :
    Holds (b.toList.flatMap backgroundKinds ++ ks) rows := by
  cases b with
  | none => exact h
  | some b =>
    rw [Option.toList_some, List.flatMap_singleton, backgroundKinds, List.cons_append]
    exact fun _ => h.steps b.steps _

end Holds

theorem holds_scenarios (ps : List (Scenario × List Examples)) :
    Holds (ps.flatMap fun p => scenarioKinds p.1 p.2)
      (ps.flatMap fun p => p.2.flatMap Examples.rows) := by
  induction ps with
  | nil => exact .nil
  | cons p ps ih => exact ih.scenario p.1 p.2

/-- The data rows of a text that is read as a feature are those of its examples blocks. -/
theorem dataRows_accounts {f : Feature} {blocks : List (List Examples)} {ks : List Kind}
    (h : Accounts f blocks ks) : dataRows .elsewhere ks =
      (f.scenarios.zip blocks).flatMap fun p => p.2.flatMap Examples.rows := by
  rw [← dataRows_skeleton, h.skeleton]
  exact (holds_scenarios _).background f.background _

end Grammar

/-! ## Expansions and rows -/

/-- An outline and one of the rows under its examples headings. -/
structure OutlineRow where
  outline : Outline
  header : List String
  cells : List String

/-- The rows of the outlines of a feature with these examples blocks, in order. -/
def outlineRows (ps : List (Scenario × List Examples)) : List OutlineRow :=
  ps.flatMap fun p => p.1.outline?.toList.flatMap fun o =>
    (p.2.flatMap Examples.rows).map fun r => ⟨o, r.1, r.2⟩

/-- A step that differs from another in the placeholders of its text only, which are replaced. -/
structure Concrete (row : Bindings) (step concrete : Step) : Prop where
  keyword : concrete.keyword = step.keyword
  argument : concrete.argument = step.argument
  text : concrete.text = Placeholder.substitute step.text row

/-- An expansion of an outline's row: the example binds the header's names to the row's cells. -/
structure Expands (r : OutlineRow) (e : Expansion) : Prop where
  scenario : e.scenario = r.outline.name
  row : Binds e.row r.header r.cells
  steps : List.Forall₂ (Concrete e.row) r.outline.steps e.steps

theorem forall₂_concrete (row : Bindings) (steps : List Step) :
    List.Forall₂ (Concrete row) steps (steps.map fun s => s.substitute row) := by
  rw [List.forall₂_map_right_iff, List.forall₂_same]
  exact fun s _ => ⟨rfl, rfl, rfl⟩

/-- The expansions of an outline are those of the rows that its examples exhibit. -/
theorem expands_outline {o : Outline} {es : List Examples} (h : Exhibits (.outline o) es) :
    List.Forall₂ Expands ((es.flatMap Examples.rows).map fun r => ⟨o, r.1, r.2⟩)
      o.toExpansions := by
  have hrows : List.Forall₂ (fun row r => Binds row r.1 r.2) o.examples
      (es.flatMap Examples.rows) := h.2
  have hexpansions : o.toExpansions = o.examples.map fun row => ⟨o.name, row, o.expand row⟩ := by
    rw [Outline.toExpansions, Outline.expansions, List.map_map]
    rfl
  rw [hexpansions, List.forall₂_map_left_iff, List.forall₂_map_right_iff]
  exact hrows.flip.imp fun r row hbinds => ⟨rfl, hbinds, forall₂_concrete row o.steps⟩

/-- A feature has one expansion for each row of its outlines, in order. -/
theorem expansions_rows {scenarios : List Scenario} {blocks : List (List Examples)}
    (h : List.Forall₂ Exhibits scenarios blocks) :
    List.Forall₂ Expands (outlineRows (scenarios.zip blocks))
      ((scenarios.filterMap Scenario.outline?).flatMap Outline.toExpansions) := by
  induction h with
  | nil => exact .nil
  | @cons s es scenarios blocks hs _ ih =>
    cases s with
    | simple b => exact ih
    | outline o =>
      have hoption : Scenario.outline? (.outline o) = some o := rfl
      rw [List.zip_cons_cons, outlineRows, List.flatMap_cons, List.filterMap_cons_some hoption,
        List.flatMap_cons, hoption, Option.toList_some, List.flatMap_singleton]
      exact List.rel_append (expands_outline hs) ih

/-- A plain scenario has no examples block, so every block's rows are those of an outline. -/
theorem outlineRows_cells {scenarios : List Scenario} {blocks : List (List Examples)}
    (h : List.Forall₂ Exhibits scenarios blocks) :
    (outlineRows (scenarios.zip blocks)).map (fun r => (r.header, r.cells)) =
      (scenarios.zip blocks).flatMap fun p => p.2.flatMap Examples.rows := by
  induction h with
  | nil => rfl
  | @cons s es scenarios blocks hs _ ih =>
    rw [List.zip_cons_cons, outlineRows, List.flatMap_cons, List.map_append, List.flatMap_cons]
    refine congrArg₂ (· ++ ·) ?_ ih
    cases s with
    | simple b =>
      obtain rfl : es = [] := hs
      rfl
    | outline o =>
      rw [Scenario.outline?, Option.toList_some, List.flatMap_singleton, List.map_map]
      exact List.map_id _

/-! ## JSON reports -/

namespace Json

/-- A line end after a JSON text says nothing. -/
theorem Spells.line {text : List Char} {j : Json} (h : Spells text j) :
    Spells (text ++ ['\n']) j := by
  intro r
  rw [List.append_assoc, h, List.singleton_append, tokens_space (.inr rfl)]

end Json

open Json (Draft DecodeError Record Plain decodeJson decodeText fill fill_map require)

/-- The parts of an expansion. -/
structure ExpansionParts where
  scenario : Option String
  row : Option Bindings
  steps : Option (List Step)

def ExpansionParts.put (field : String) (d : Draft) (p : ExpansionParts) :
    Except DecodeError ExpansionParts :=
  match field with
  | "scenario" => (fill field Draft.asString p.scenario d).map ({ p with scenario := · })
  | "example" => (fill field Bindings.decode p.row d).map ({ p with row := · })
  | "steps" => (fill field (Draft.asList Step.decode) p.steps d).map ({ p with steps := · })
  | _ => .ok p

/-- How an expansion is read back: a structure of three fields. -/
def Expansion.record : Record ExpansionParts Expansion where
  name := "Expansion"
  fields := ["scenario", "example", "steps"]
  start := ⟨none, none, none⟩
  put := ExpansionParts.put
  finish missing p := do
    return ⟨← require missing "scenario" p.scenario, ← require missing "example" p.row,
      ← require missing "steps" p.steps⟩

def Expansion.decode : Draft → Except DecodeError Expansion := Expansion.record.decode

theorem Expansion.decodeJson_toJson (e : Expansion) :
    decodeJson Expansion.decode e.toJson = .ok e := by
  refine Record.decodeJson_object (p := ⟨some e.scenario, some e.row, some e.steps⟩) ?_ rfl
  refine Eq.trans (Record.gather_cons (by decide) rfl) ?_
  refine Eq.trans (Record.gather_cons (by decide) (fill_map e.row.decodeJson_toJson)) ?_
  exact Record.gather_cons (by decide) (fill_map (asList_steps e.steps))

theorem Expansion.plain_toJson (n : Nat) (e : Expansion) : Plain (n + 7) e.toJson := by
  refine .object fun m hm => ?_
  simp only [List.mem_cons, List.not_mem_nil, or_false] at hm
  rcases hm with rfl | rfl | rfl
  · exact .string e.scenario
  · exact e.row.plain_toJson (n + 5)
  · exact plain_array_map (n + 5) fun s _ => s.plain_toJson n

/-- The text of a report. -/
def Report.text (ps : List Report.Piece) : String := String.join (ps.map Report.Piece.text)

theorem Report.text_jsonPieces (s : List Char) :
    Report.text (Report.jsonPieces (String.ofList s)) = String.ofList (s ++ ['\n']) := by
  apply String.toList_injective
  simp [Report.text, Report.jsonPieces]

/-- A JSON report on the expansions holds them, in order. -/
theorem decode_expansions {format : Format} (h : format ≠ .summary) (f : Feature) :
    decodeText (Draft.asList Expansion.decode) (Report.text (Report.pieces .expand format f)) =
      .ok f.expansions := by
  have hplain : Plain Draft.depthLimit (.array (f.expansions.map Expansion.toJson)) :=
    plain_array_map 126 fun e _ => e.plain_toJson 119
  have hdecode : decodeJson (Draft.asList Expansion.decode)
      (.array (f.expansions.map Expansion.toJson)) = .ok f.expansions :=
    Json.asList_ofJson fun e _ => e.decodeJson_toJson
  rw [← hdecode]
  cases format with
  | json =>
    rw [Report.pieces, Json.toCompact, Report.text_jsonPieces]
    exact Json.decodeText_of_spells _ hplain (Json.spells_compact hplain).line
  | prettyJson =>
    rw [Report.pieces, Json.toIndented, Report.text_jsonPieces]
    exact Json.decodeText_of_spells _ hplain (Json.spells_indented hplain 0).line
  | summary => exact absurd rfl h

/-! ## The expansions of a text -/

/-- A document has an expansion for each data row under its examples headings and no other, in the
order of the rows; both JSON reports hold these expansions. -/
theorem expansions_cover_rows {text : String} {f : Feature} (h : Feature.ofText text = .ok f) :
    ∃ ls blocks, Reads text ls ∧ Accounts f blocks (ls.map Line.kind) ∧
      List.Forall₂ Expands (outlineRows (f.scenarios.zip blocks)) f.expansions ∧
      (outlineRows (f.scenarios.zip blocks)).map (fun r => (r.header, r.cells)) =
        dataRows .elsewhere (ls.map Line.kind) ∧
      f.expansions.length = (dataRows .elsewhere (ls.map Line.kind)).length ∧
      ∀ format, format ≠ .summary → decodeText (Draft.asList Expansion.decode)
        (Report.text (Report.pieces .expand format f)) = .ok f.expansions := by
  obtain ⟨ls, hls, hdocument⟩ := Feature.ofText_eq_ok_iff.1 h
  obtain ⟨blocks, haccounts⟩ := accounts_document hdocument
  have hexpands : List.Forall₂ Expands (outlineRows (f.scenarios.zip blocks)) f.expansions :=
    expansions_rows haccounts.exhibits
  have hcells := outlineRows_cells haccounts.exhibits
  rw [← dataRows_accounts haccounts] at hcells
  refine ⟨ls, blocks, hls, haccounts, hexpands, hcells, ?_, fun _ hformat =>
    decode_expansions hformat f⟩
  rw [← hcells, List.length_map, hexpands.length_eq]

/-- A plain scenario with a table, and an outline with two examples blocks, whose step takes the
cells of each row. -/
theorem expansions_cover_rows_blocks :
    let text := "\n".intercalate ["Feature: F", "Scenario: S", "Given a", "|x|", "|0|",
      "Scenario Outline: O", "Given <x> of <y>", "|<x>|", "|b|", "Examples:", "|x|y|", "|1|2|", "",
      "# c", "Examples: E", "|x|y|", "|3|4|", "|5|6|"]
    ∃ f, Feature.ofText text = .ok f ∧
      (f.expansions.map fun e => (e.scenario, e.row.entries, e.steps.map Step.text)) =
        [("O", [("x", "1"), ("y", "2")], ["1 of 2"]), ("O", [("x", "3"), ("y", "4")], ["3 of 4"]),
          ("O", [("x", "5"), ("y", "6")], ["5 of 6"])] ∧
      (∃ ls blocks, Reads text ls ∧ Accounts f blocks (ls.map Line.kind) ∧
        List.Forall₂ Expands (outlineRows (f.scenarios.zip blocks)) f.expansions ∧
        (outlineRows (f.scenarios.zip blocks)).map (fun r => (r.header, r.cells)) =
          dataRows .elsewhere (ls.map Line.kind) ∧
        f.expansions.length = (dataRows .elsewhere (ls.map Line.kind)).length) ∧
      ∀ format ∈ [Format.json, .prettyJson], decodeText (Draft.asList Expansion.decode)
        (Report.text (Report.pieces .expand format f)) = .ok f.expansions := by
  intro text
  refine exists_ok_and (by decide +kernel) fun f hf => ?_
  obtain ⟨ls, blocks, hls, haccounts, hexpands, hcells, hlength, hdecode⟩ :=
    expansions_cover_rows hf
  have hformats : ∀ format ∈ [Format.json, .prettyJson], format ≠ .summary := by decide
  have htexts : (Feature.ofText text).toOption.map (fun f => f.expansions.map fun e =>
      (e.scenario, e.row.entries, e.steps.map Step.text)) = some [
        ("O", [("x", "1"), ("y", "2")], ["1 of 2"]), ("O", [("x", "3"), ("y", "4")], ["3 of 4"]),
        ("O", [("x", "5"), ("y", "6")], ["5 of 6"])] := by
    decide +kernel
  rw [hf] at htexts
  exact ⟨Option.some.inj htexts, ⟨ls, blocks, hls, haccounts, hexpands, hcells, hlength⟩,
    fun format hformat => hdecode format (hformats format hformat)⟩

end Gherkin
