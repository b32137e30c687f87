import Gherkin.Placeholder
import Gherkin.Tag

/-
  Scenarios. A scenario is a block of steps; an outline has examples too, and stands for one list of
  concrete steps per example.
-/

namespace Gherkin

/-- A named and tagged list of steps: a background or a plain scenario. -/
structure Block where
  name : String
  description : Option String
  tags : List Tag
  steps : List Step
deriving DecidableEq

/-- A block whose step texts hold placeholders, with a row of bindings per example. -/
structure Outline extends Block where
  examples : List Bindings
deriving DecidableEq

/-- The steps of one example. -/
def Outline.expand (o : Outline) (row : Bindings) : List Step :=
  o.steps.map fun step => step.substitute row

/-- Every example with its steps, in order. -/
def Outline.expansions (o : Outline) : List (Bindings × List Step) :=
  o.examples.map fun row => (row, o.expand row)

/-- A plain scenario or an outline. -/
inductive Scenario where
  | simple (block : Block)
  | outline (outline : Outline)
deriving DecidableEq

namespace Scenario

/-- What a plain scenario and an outline have in common; an outline's steps keep their
placeholders. -/
def block : Scenario → Block
  | simple b => b
  | outline o => o.toBlock

def name (s : Scenario) : String := s.block.name

def description (s : Scenario) : Option String := s.block.description

def tags (s : Scenario) : List Tag := s.block.tags

def steps (s : Scenario) : List Step := s.block.steps

/-- The examples; a plain scenario has none. -/
def examples : Scenario → List Bindings
  | simple _ => []
  | outline o => o.examples

/-- The outline that the scenario is. -/
def outline? : Scenario → Option Outline
  | simple _ => none
  | outline o => some o

def isOutline (s : Scenario) : Bool := s.outline?.isSome

/-- A tag of the scenario has this name. -/
def hasTag (s : Scenario) (name : String) : Bool := s.tags.any fun t => t.name == name

end Scenario

end Gherkin
