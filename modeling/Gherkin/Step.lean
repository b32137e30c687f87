import Gherkin.Bindings
import Gherkin.Keyword

/-
  Steps and what is attached to them: a table or a doc string.
-/

namespace Gherkin

/-- A table: the names of its columns, and a row of cells bound to them. -/
structure Table where
  header : List String
  rows : List Bindings
deriving DecidableEq

/-- The table of a header and the cells under it. -/
def Table.ofCells (header : List String) (cells : List (List String)) : Table :=
  ⟨header, cells.map fun row => Bindings.ofList (header.zip row)⟩

/-- The cells of a column, without the rows that lack it. -/
def Table.column (t : Table) (name : String) : List String :=
  t.rows.filterMap fun row => row.get? name

/-- What is attached to a step. -/
inductive Argument where
  | table (t : Table)
  | docString (content : String)
deriving DecidableEq

/-- One action or assertion. -/
structure Step where
  keyword : StepKeyword
  text : String
  argument : Option Argument
deriving DecidableEq

/-- The table attached to a step. -/
def Step.table? (s : Step) : Option Table :=
  match s.argument with
  | some (.table t) => some t
  | _ => none

/-- The doc string attached to a step. -/
def Step.docString? (s : Step) : Option String :=
  match s.argument with
  | some (.docString content) => some content
  | _ => none

end Gherkin
