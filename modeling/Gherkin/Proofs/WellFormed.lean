import Gherkin.Feature
import Gherkin.Reader
import Gherkin.Proofs.Text

/-
  What is true of every model that was read from a text, and what a model needs to be written as
  one: names and step texts are trimmed lines, rows are bound to one header, a description is free
  text, and no line of a doc string is a fence.
-/

namespace Gherkin

namespace Text

/-- No blank stands at an end of the text. -/
def Trimmed (s : String) : Prop := trim s.toList = s.toList

/-- The text holds no newline. -/
def OneLine (s : String) : Prop := '\n' ∉ s.toList

/-- Read as a document of its own, the text is one line of free text. -/
def Free (s : String) : Prop := (Reader.ofText s.toList).items = [.ok ⟨1, .text s⟩]

/-- No newline-separated line of the text is a fence. -/
def Fenceless (s : String) : Prop :=
  ∀ line ∈ s.toList.splitOn '\n', trim line ≠ Line.fenceMark

instance (s : String) : Decidable (Trimmed s) := inferInstanceAs (Decidable (_ = _))

instance (s : String) : Decidable (OneLine s) := inferInstanceAs (Decidable (_ ∉ _))

instance (s : String) : Decidable (Free s) := inferInstanceAs (Decidable (_ = _))

instance (s : String) : Decidable (Fenceless s) := inferInstanceAs (Decidable (∀ _ ∈ _, _))

end Text

open Text

/-- A tag's name is not empty and holds no blank. -/
structure Tag.WellFormed (t : Tag) : Prop where
  nonempty : t.name ≠ ""
  unbroken : ∀ c ∈ t.name.toList, isBlank c = false

instance (t : Tag) : Decidable t.WellFormed :=
  -- looks at the characters of the name only, not at all characters there are
  have : Decidable (∀ c ∈ t.name.toList, isBlank c = false) := List.decidableBAll _ _
  decidable_of_iff (t.name ≠ "" ∧ ∀ c ∈ t.name.toList, isBlank c = false)
    ⟨fun h => ⟨h.1, h.2⟩, fun h => ⟨h.nonempty, h.unbroken⟩⟩

/-- A section's name is a trimmed line. -/
structure NameWellFormed (name : String) : Prop where
  trimmed : Trimmed name
  oneLine : OneLine name

instance (name : String) : Decidable (NameWellFormed name) :=
  decidable_of_iff (Trimmed name ∧ OneLine name)
    ⟨fun h => ⟨h.1, h.2⟩, fun h => ⟨h.trimmed, h.oneLine⟩⟩

/-- A description joins lines of free text by spaces. -/
def DescriptionWellFormed (description : String) : Prop :=
  ∃ parts, parts ≠ [] ∧ (∀ s ∈ parts, Free s) ∧ description = " ".intercalate parts

/-- Rows under a header: at least one, each bound to the distinct names of the header in order. -/
structure RowsWellFormed (header : List String) (rows : List Bindings) : Prop where
  columns : header ≠ []
  distinct : header.Nodup
  names : ∀ name ∈ header, Trimmed name
  nonempty : rows ≠ []
  keys : ∀ row ∈ rows, row.keys = header
  cells : ∀ row ∈ rows, ∀ cell ∈ row.values, Trimmed cell

instance (header : List String) (rows : List Bindings) : Decidable (RowsWellFormed header rows) :=
  decidable_of_iff (header ≠ [] ∧ header.Nodup ∧ (∀ name ∈ header, Trimmed name) ∧ rows ≠ [] ∧
      (∀ row ∈ rows, row.keys = header) ∧ ∀ row ∈ rows, ∀ cell ∈ row.values, Trimmed cell)
    ⟨fun ⟨h, d, n, r, k, c⟩ => ⟨h, d, n, r, k, c⟩,
      fun ⟨h, d, n, r, k, c⟩ => ⟨h, d, n, r, k, c⟩⟩

def Argument.WellFormed : Argument → Prop
  | table t => RowsWellFormed t.header t.rows
  | docString s => Fenceless s

instance : (a : Argument) → Decidable a.WellFormed
  | .table t => inferInstanceAs (Decidable (RowsWellFormed t.header t.rows))
  | .docString s => inferInstanceAs (Decidable (Fenceless s))

structure Step.WellFormed (s : Step) : Prop where
  trimmed : Trimmed s.text
  nonempty : s.text ≠ ""
  oneLine : OneLine s.text
  argument : ∀ a ∈ s.argument, a.WellFormed

instance (s : Step) : Decidable s.WellFormed :=
  decidable_of_iff (Trimmed s.text ∧ s.text ≠ "" ∧ OneLine s.text ∧
      ∀ a ∈ s.argument, a.WellFormed)
    ⟨fun ⟨t, n, o, a⟩ => ⟨t, n, o, a⟩, fun ⟨t, n, o, a⟩ => ⟨t, n, o, a⟩⟩

structure Block.WellFormed (b : Block) : Prop where
  name : NameWellFormed b.name
  description : ∀ d ∈ b.description, DescriptionWellFormed d
  tags : ∀ t ∈ b.tags, t.WellFormed
  steps : ∀ s ∈ b.steps, s.WellFormed

/-- An outline's examples are rows under one header. -/
structure Outline.WellFormed (o : Outline) : Prop where
  block : o.toBlock.WellFormed
  examples : ∃ header, RowsWellFormed header o.examples

def Scenario.WellFormed : Scenario → Prop
  | simple b => b.WellFormed
  | outline o => o.WellFormed

structure Feature.WellFormed (f : Feature) : Prop where
  name : NameWellFormed f.name
  description : ∀ d ∈ f.description, DescriptionWellFormed d
  tags : ∀ t ∈ f.tags, t.WellFormed
  background : ∀ b ∈ f.background, b.WellFormed
  nonempty : f.scenarios ≠ []
  scenarios : ∀ s ∈ f.scenarios, s.WellFormed

/-- The outlines of a well-formed feature are well formed. -/
theorem Feature.WellFormed.outlines {f : Feature} (h : f.WellFormed) {o : Outline}
    (ho : o ∈ f.outlines) : o.WellFormed := by
  obtain ⟨s, hs, hoption⟩ := List.mem_filterMap.1 ho
  cases s with
  | simple b => cases hoption
  | outline o' =>
    cases hoption
    exact h.scenarios _ hs

end Gherkin
