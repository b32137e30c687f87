import Gherkin.Feature
import Gherkin.Json.Value

/-
  The JSON form of the model. A structure is an object of its fields in order; an absent
  description, background or argument and an empty list of tags are left out. A tag and a step
  keyword are strings, a row is an object in the order of its entries, and a scenario has no mark of
  its kind: an outline is known by its examples.
-/

namespace Gherkin

open Json (string array object)

/-- The name of a step keyword in JSON. -/
def StepKeyword.key : StepKeyword → String
  | given => "given"
  | when => "when"
  | «then» => "then"
  | and => "and"
  | but => "but"

/-- A member that is left out if there is no value. -/
def optionalMember {α : Type} (key : String) (value : α → Json) : Option α → List (String × Json)
  | none => []
  | some a => [(key, value a)]

def StepKeyword.toJson (k : StepKeyword) : Json := string k.key

def Tag.toJson (t : Tag) : Json := string t.name

def Bindings.toJson (b : Bindings) : Json := object (b.entries.map fun (k, v) => (k, string v))

def Table.toJson (t : Table) : Json :=
  object [("header", array (t.header.map string)), ("rows", array (t.rows.map Bindings.toJson))]

def Argument.toJson : Argument → Json
  | table t => object [("table", t.toJson)]
  | docString s => object [("doc_string", string s)]

def Step.toJson (s : Step) : Json :=
  object ([("keyword", s.keyword.toJson), ("text", string s.text)] ++
    optionalMember "argument" Argument.toJson s.argument)

/-- The members for a name, a description and tags. -/
def openingMembers (name : String) (description : Option String) (tags : List Tag) :
    List (String × Json) :=
  ("name", string name) :: optionalMember "description" string description ++
    if tags.isEmpty then [] else [("tags", array (tags.map Tag.toJson))]

def Block.members (b : Block) : List (String × Json) :=
  openingMembers b.name b.description b.tags ++ [("steps", array (b.steps.map Step.toJson))]

def Block.toJson (b : Block) : Json := object b.members

def Outline.toJson (o : Outline) : Json :=
  object (o.toBlock.members ++ [("examples", array (o.examples.map Bindings.toJson))])

def Scenario.toJson : Scenario → Json
  | simple b => b.toJson
  | outline o => o.toJson

def Feature.toJson (f : Feature) : Json :=
  object (openingMembers f.name f.description f.tags ++
    optionalMember "background" Block.toJson f.background ++
    [("scenarios", array (f.scenarios.map Scenario.toJson))])

end Gherkin
