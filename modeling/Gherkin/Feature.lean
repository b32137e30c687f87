import Gherkin.Scenario

/-
  A feature: the document as a whole.
-/

namespace Gherkin

/-- A feature; the steps of its background come before those of every scenario. -/
structure Feature where
  name : String
  description : Option String
  tags : List Tag
  background : Option Block
  scenarios : List Scenario
deriving DecidableEq

namespace Feature

/-- The first scenario of a name. -/
def scenario? (f : Feature) (name : String) : Option Scenario :=
  f.scenarios.find? fun s => s.name == name

/-- The outlines, in order. -/
def outlines (f : Feature) : List Outline := f.scenarios.filterMap Scenario.outline?

end Feature

end Gherkin
