import Gherkin.Text.Blank

/-
  The fixed English vocabulary: the headings that open a section, the words that open a step, and
  the openings of the wider language that are refused. In a document all of them are matched
  literally; `StepKeyword.ofName` reads a step keyword leniently from other sources.
-/

namespace Gherkin

/-- The word that opens a step. -/
inductive StepKeyword where
  | given
  | when
  | «then»
  | and
  | but
deriving DecidableEq

namespace StepKeyword

/-- Every step keyword, in the order in which a line is compared with them. -/
def all : List StepKeyword := [given, when, «then», and, but]

/-- The keyword as it stands in a document. -/
def word : StepKeyword → String
  | given => "Given"
  | when => "When"
  | «then» => "Then"
  | and => "And"
  | but => "But"

/-- The step keyword that opens the line, with what follows the blank after it. -/
def opening? (content : List Char) : Option (StepKeyword × List Char) :=
  all.findSome? fun k =>
    match k.word.toList.isPrefixOf? content with
    | some (c :: rest) => if Text.isBlank c then some (k, rest) else none
    | _ => none

/-- A name that is no step keyword. -/
structure UnknownName where
  name : String
deriving DecidableEq

/-- The wording of an unknown name. -/
def UnknownName.describe (u : UnknownName) : String := s!"invalid step keyword: {u.name}"

/-- The keyword of a name, whatever the case of its ASCII letters and the blanks around it. -/
def ofName (name : String) : Except UnknownName StepKeyword :=
  let trimmed := Text.trim name.toList
  match all.find? fun k => k.word.toList.map Char.toLower == trimmed.map Char.toLower with
  | some k => .ok k
  | none => .error ⟨String.ofList trimmed⟩

theorem mem_all (k : StepKeyword) : k ∈ all := by cases k <;> decide

theorem word_inj {k l : StepKeyword} (h : k.word = l.word) : k = l := by
  revert h; cases k <;> cases l <;> decide

end StepKeyword

/-- What opens a section. -/
inductive Heading where
  | feature
  | background
  | scenario
  | scenarioOutline
  | examples
deriving DecidableEq

namespace Heading

/-- Every heading, in the order in which a line is compared with them. -/
def all : List Heading := [feature, background, scenarioOutline, scenario, examples]

/-- The heading as it stands in a document. -/
def label : Heading → String
  | feature => "Feature:"
  | background => "Background:"
  | scenario => "Scenario:"
  | scenarioOutline => "Scenario Outline:"
  | examples => "Examples:"

/-- The heading that opens the line, with what follows it. -/
def opening? (content : List Char) : Option (Heading × List Char) :=
  all.findSome? fun h => (h.label.toList.isPrefixOf? content).map fun rest => (h, rest)

theorem mem_all (h : Heading) : h ∈ all := by cases h <;> decide

theorem label_inj {h k : Heading} (e : h.label = k.label) : h = k := by
  revert e; cases h <;> cases k <;> decide

end Heading

/-- Openings of the wider language that a document must not use. -/
def unsupported : List String := ["Rule:", "Example:", "Scenario Template:", "Scenarios:"]

/-- The unsupported opening of a line. -/
def unsupported? (content : List Char) : Option String :=
  unsupported.find? fun u => u.toList.isPrefixOf content

end Gherkin
