import Gherkin.Cursor
import Gherkin.Feature
import Mathlib.Data.List.Forall2

/-
  The grammar of documents, said without the parser. Its letters are the significant lines of a
  text, each marked with whether a blank line stands before it; a production relates a sequence of
  lines to the value that they spell. A one-line part that repeats is a `Forall₂`, any other part
  that repeats a `Star`.
-/

namespace Gherkin.Grammar

/-! ## Letters -/

/-- The significant lines among lines; `blank` tells whether a blank line stands before them since
the last significant one. -/
def significant (blank : Bool) : List Line → List Significant
  | [] => []
  | l :: ls =>
    match l.kind with
    | .blank => significant true ls
    | .comment => significant blank ls
    | _ => ⟨l, blank⟩ :: significant false ls

/-- The kinds of significant lines. -/
def kinds (ls : List Significant) : List Line.Kind := ls.map fun l => l.line.kind

theorem kinds_cons (l : Significant) (ls : List Significant) :
    kinds (l :: ls) = l.line.kind :: kinds ls := rfl

theorem kinds_append (ls ms : List Significant) : kinds (ls ++ ms) = kinds ls ++ kinds ms :=
  List.map_append

def TagLine (l : Significant) (ts : List Tag) : Prop := l.line.kind = .tags ts

def TextLine (l : Significant) (s : String) : Prop := l.line.kind = .text s

def RowLine (l : Significant) (cells : List String) : Prop := l.line.kind = .row cells

/-- The line does not come after a blank line. -/
def Directly {α : Type} (R : Significant → α → Prop) (l : Significant) (a : α) : Prop :=
  R l a ∧ l.afterBlank = false

/-! ## Repetition -/

/-- Any number of parts, one after the other. -/
inductive Star {α : Type} (P : List Significant → α → Prop) : List Significant → List α → Prop
  | nil : Star P [] []
  | cons {ls ms : List Significant} {v : α} {vs : List α} (first : P ls v) (more : Star P ms vs) :
    Star P (ls ++ ms) (v :: vs)

/-- A part that may be left out. -/
inductive Opt {α : Type} (P : List Significant → α → Prop) : List Significant → Option α → Prop
  | none : Opt P [] none
  | some {ls : List Significant} {v : α} (part : P ls v) : Opt P ls (some v)

/-! ## Productions -/

/-- A description: a text line, and text lines that follow it with no blank line between. -/
inductive DescriptionLines : List Significant → Option String → Prop
  | absent : DescriptionLines [] none
  | present {l : Significant} {ls : List Significant} {s : String} {ss : List String}
    (first : TextLine l s) (more : List.Forall₂ (Directly TextLine) ls ss) :
    DescriptionLines (l :: ls) (some (" ".intercalate (s :: ss)))

/-- The cells of a table: the header's and those of the rows under it. -/
structure Rows where
  header : List String
  data : List (List String)

/-- The table of some cells. -/
def Rows.table (r : Rows) : Table := Table.ofCells r.header r.data

/-- A table: a header that names each column once, and at least one row, each as wide. -/
inductive TableLines : List Significant → Rows → Prop
  | rows {l : Significant} {ls : List Significant} {header : List String}
    {data : List (List String)} (first : RowLine l header)
    (more : List.Forall₂ (Directly RowLine) ls data) (nonempty : data ≠ [])
    (distinct : header.Nodup) (even : ∀ row ∈ data, row.length = header.length) :
    TableLines (l :: ls) ⟨header, data⟩

/-- A doc string: two fences and the captured lines between them. -/
inductive DocStringLines : List Significant → String → Prop
  | fenced {opening closing : Significant} {ls : List Significant} {ss : List String}
    (first : opening.line.kind = .fence) (captured : List.Forall₂ TextLine ls ss)
    (last : closing.line.kind = .fence) :
    DocStringLines (opening :: (ls ++ [closing])) ("\n".intercalate ss)

/-- The argument of a step: a table or a doc string with no blank line before it, or nothing. -/
inductive ArgumentLines : List Significant → Option Argument → Prop
  | absent : ArgumentLines [] none
  | table {l : Significant} {ls : List Significant} {r : Rows} (direct : l.afterBlank = false)
    (lines : TableLines (l :: ls) r) : ArgumentLines (l :: ls) (some (.table r.table))
  | docString {l : Significant} {ls : List Significant} {s : String}
    (direct : l.afterBlank = false) (lines : DocStringLines (l :: ls) s) :
    ArgumentLines (l :: ls) (some (.docString s))

/-- A step line and its argument. -/
inductive StepLines : List Significant → Step → Prop
  | step {l : Significant} {ls : List Significant} {keyword : StepKeyword} {text : String}
    {argument : Option Argument} (first : l.line.kind = .step keyword text)
    (attached : ArgumentLines ls argument) : StepLines (l :: ls) ⟨keyword, text, argument⟩

/-- A description and steps. -/
inductive BodyLines : List Significant → Option String → List Step → Prop
  | body {ds ls : List Significant} {description : Option String} {steps : List Step}
    (opening : DescriptionLines ds description) (rest : Star StepLines ls steps) :
    BodyLines (ds ++ ls) description steps

/-- An examples heading and its table. -/
inductive ExamplesLines : List Significant → Rows → Prop
  | examples {l : Significant} {ls : List Significant} {name : String} {r : Rows}
    (first : l.line.kind = .heading .examples name) (table : TableLines ls r) :
    ExamplesLines (l :: ls) r

/-- A scenario after its tags. The examples tables of an outline have one header. -/
inductive ScenarioLines (tags : List Tag) : List Significant → Scenario → Prop
  | simple {l : Significant} {ls : List Significant} {name : String}
    {description : Option String} {steps : List Step}
    (first : l.line.kind = .heading .scenario name) (body : BodyLines ls description steps) :
    ScenarioLines tags (l :: ls) (.simple ⟨name, description, tags, steps⟩)
  | outline {l : Significant} {ls es : List Significant} {name : String}
    {description : Option String} {steps : List Step} {tables : List Rows} {header : List String}
    (first : l.line.kind = .heading .scenarioOutline name)
    (body : BodyLines ls description steps) (examples : Star ExamplesLines es tables)
    (nonempty : tables ≠ []) (same : ∀ r ∈ tables, r.header = header) :
    ScenarioLines tags (l :: (ls ++ es))
      (.outline ⟨⟨name, description, tags, steps⟩, tables.flatMap fun r => r.table.rows⟩)

/-- Tag lines and a scenario. -/
inductive TaggedLines : List Significant → Scenario → Prop
  | tagged {ts ls : List Significant} {tags : List (List Tag)} {s : Scenario}
    (before : List.Forall₂ TagLine ts tags) (scenario : ScenarioLines tags.flatten ls s) :
    TaggedLines (ts ++ ls) s

/-- Tag lines and a background. -/
inductive BackgroundLines : List Significant → Block → Prop
  | background {l : Significant} {ts ls : List Significant} {tags : List (List Tag)}
    {name : String} {description : Option String} {steps : List Step}
    (before : List.Forall₂ TagLine ts tags) (first : l.line.kind = .heading .background name)
    (body : BodyLines ls description steps) :
    BackgroundLines (ts ++ l :: ls) ⟨name, description, tags.flatten, steps⟩

/-- A document: tag lines, the feature's heading and description, a background or none, and at
least one scenario. -/
inductive DocumentLines : List Significant → Feature → Prop
  | document {l : Significant} {ts ds bs ls : List Significant} {tags : List (List Tag)}
    {name : String} {description : Option String} {background : Option Block}
    {scenarios : List Scenario} (before : List.Forall₂ TagLine ts tags)
    (first : l.line.kind = .heading .feature name)
    (opening : DescriptionLines ds description) (steps : Opt BackgroundLines bs background)
    (rest : Star TaggedLines ls scenarios) (nonempty : scenarios ≠ []) :
    DocumentLines (ts ++ l :: (ds ++ (bs ++ ls)))
      ⟨name, description, tags.flatten, background, scenarios⟩

end Gherkin.Grammar
