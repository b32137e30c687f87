import Gherkin.Codec.Encode
import Gherkin.Json.Decoder

/-
  Decoding of the model from JSON. A structure takes its fields and no others, each at most once.
  An outline needs an example. A scenario is decoded from a whole value: as a plain scenario if it
  is one, else as an outline.
-/

namespace Gherkin

open Json (Draft DecodeError Record fill require)

/-- The names of the step keywords. -/
def StepKeyword.keys : List String := StepKeyword.all.map StepKeyword.key

/-- The step keyword of a name. -/
def StepKeyword.ofKey (name : String) : Except DecodeError StepKeyword :=
  match StepKeyword.all.find? fun k => k.key == name with
  | some k => .ok k
  | none => .error (.unknownVariant name StepKeyword.keys)

/-- A step keyword: its name, or an object that binds its name to null. -/
def StepKeyword.decode : Draft → Except DecodeError StepKeyword :=
  Json.alternative StepKeyword.ofKey .ok fun k d => d.asNull.map fun _ => k

def Tag.decode (d : Draft) : Except DecodeError Tag := d.asString.map Tag.mk

/-- Binds a member of an object. -/
def Bindings.putMember (b : Bindings) : Option String × Draft → Except DecodeError Bindings
  | (some k, d) => d.asString.map fun v => b.insert k v
  | (none, _) => .error .malformed

/-- A row: an object of strings; of a name that repeats the last value counts. -/
def Bindings.decode : Draft → Except DecodeError Bindings
  | .object members => members.foldlM Bindings.putMember .empty
  | d => .error (d.mismatch "a map")

/-- The parts of a table. -/
structure TableParts where
  header : Option (List String)
  rows : Option (List Bindings)

def TableParts.put (field : String) (d : Draft) (p : TableParts) : Except DecodeError TableParts :=
  match field with
  | "header" => (fill field (Draft.asList Draft.asString) p.header d).map ({ p with header := · })
  | "rows" => (fill field (Draft.asList Bindings.decode) p.rows d).map ({ p with rows := · })
  | _ => .ok p

def Table.record : Record TableParts Table where
  name := "DataTable"
  fields := ["header", "rows"]
  start := ⟨none, none⟩
  put := TableParts.put
  finish missing p := do
    return ⟨← require missing "header" p.header, ← require missing "rows" p.rows⟩

def Table.decode : Draft → Except DecodeError Table := Table.record.decode

/-- The alternatives of an argument. -/
inductive ArgumentKind where
  | table
  | docString

def ArgumentKind.ofKey : String → Except DecodeError ArgumentKind
  | "table" => .ok table
  | "doc_string" => .ok docString
  | name => .error (.unknownVariant name ["table", "doc_string"])

/-- An argument: an object with its one alternative. -/
def Argument.decode : Draft → Except DecodeError Argument :=
  Json.alternative ArgumentKind.ofKey
    (fun _ => .error (.wrongType "unit variant" "newtype variant"))
    fun
      | .table, d => (Table.decode d).map .table
      | .docString, d => d.asString.map .docString

/-- The parts of a step. -/
structure StepParts where
  keyword : Option StepKeyword
  text : Option String
  argument : Option (Option Argument)

def StepParts.put (field : String) (d : Draft) (p : StepParts) : Except DecodeError StepParts :=
  match field with
  | "keyword" => (fill field StepKeyword.decode p.keyword d).map ({ p with keyword := · })
  | "text" => (fill field Draft.asString p.text d).map ({ p with text := · })
  | "argument" =>
    (fill field (Draft.asOption Argument.decode) p.argument d).map ({ p with argument := · })
  | _ => .ok p

def Step.record : Record StepParts Step where
  name := "Step"
  fields := ["keyword", "text", "argument"]
  start := ⟨none, none, none⟩
  put := StepParts.put
  finish missing p := do
    return ⟨← require missing "keyword" p.keyword, ← require missing "text" p.text,
      p.argument.getD none⟩

def Step.decode : Draft → Except DecodeError Step := Step.record.decode

/-- The parts of a block. -/
structure BlockParts where
  name : Option String
  description : Option (Option String)
  tags : Option (List Tag)
  steps : Option (List Step)

def BlockParts.put (field : String) (d : Draft) (p : BlockParts) : Except DecodeError BlockParts :=
  match field with
  | "name" => (fill field Draft.asString p.name d).map ({ p with name := · })
  | "description" =>
    (fill field (Draft.asOption Draft.asString) p.description d).map ({ p with description := · })
  | "tags" => (fill field (Draft.asList Tag.decode) p.tags d).map ({ p with tags := · })
  | "steps" => (fill field (Draft.asList Step.decode) p.steps d).map ({ p with steps := · })
  | _ => .ok p

def BlockParts.finish (missing : String → DecodeError) (p : BlockParts) :
    Except DecodeError Block := do
  return ⟨← require missing "name" p.name, p.description.getD none, p.tags.getD [],
    ← require missing "steps" p.steps⟩

/-- A block, under the name of a background or of a plain scenario. -/
def Block.record (name : String) : Record BlockParts Block where
  name := name
  fields := ["name", "description", "tags", "steps"]
  start := ⟨none, none, none, none⟩
  put := BlockParts.put
  finish := BlockParts.finish

def Block.decodeBackground : Draft → Except DecodeError Block :=
  (Block.record "Background").decode

def Block.decodeSimple : Draft → Except DecodeError Block :=
  (Block.record "SimpleScenario").decode

/-- The parts of an outline. -/
structure OutlineParts where
  block : BlockParts
  examples : Option (List Bindings)

/-- The examples of an outline, of which there is at least one. -/
def Outline.decodeExamples (d : Draft) : Except DecodeError (List Bindings) := do
  match ← d.asList Bindings.decode with
  | [] => throw (.wrongLength 0 "at least one example row")
  | rows => return rows

def OutlineParts.put (field : String) (d : Draft) (p : OutlineParts) :
    Except DecodeError OutlineParts :=
  match field with
  | "examples" => (fill field Outline.decodeExamples p.examples d).map ({ p with examples := · })
  | _ => (p.block.put field d).map ({ p with block := · })

def Outline.record : Record OutlineParts Outline where
  name := "OutlineScenario"
  fields := ["name", "description", "tags", "steps", "examples"]
  start := ⟨⟨none, none, none, none⟩, none⟩
  put := OutlineParts.put
  finish missing p := do
    return ⟨← p.block.finish missing, ← require missing "examples" p.examples⟩

def Outline.decode : Draft → Except DecodeError Outline := Outline.record.decode

/-- A scenario: a plain scenario or else an outline, once the whole value has been read. -/
def Scenario.decode (d : Draft) : Except DecodeError Scenario :=
  if d.sound then
    match Block.decodeSimple d with
    | .ok b => .ok (.simple b)
    | .error _ =>
      match Outline.decode d with
      | .ok o => .ok (.outline o)
      | .error _ => .error (.noAlternative "Scenario")
  else .error .malformed

/-- The parts of a feature. -/
structure FeatureParts where
  name : Option String
  description : Option (Option String)
  tags : Option (List Tag)
  background : Option (Option Block)
  scenarios : Option (List Scenario)

def FeatureParts.put (field : String) (d : Draft) (p : FeatureParts) :
    Except DecodeError FeatureParts :=
  match field with
  | "name" => (fill field Draft.asString p.name d).map ({ p with name := · })
  | "description" =>
    (fill field (Draft.asOption Draft.asString) p.description d).map ({ p with description := · })
  | "tags" => (fill field (Draft.asList Tag.decode) p.tags d).map ({ p with tags := · })
  | "background" =>
    (fill field (Draft.asOption Block.decodeBackground) p.background d).map
      ({ p with background := · })
  | "scenarios" =>
    (fill field (Draft.asList Scenario.decode) p.scenarios d).map ({ p with scenarios := · })
  | _ => .ok p

def Feature.record : Record FeatureParts Feature where
  name := "Feature"
  fields := ["name", "description", "tags", "background", "scenarios"]
  start := ⟨none, none, none, none, none⟩
  put := FeatureParts.put
  finish missing p := do
    return ⟨← require missing "name" p.name, p.description.getD none, p.tags.getD [],
      p.background.getD none, ← require missing "scenarios" p.scenarios⟩

def Feature.decode : Draft → Except DecodeError Feature := Feature.record.decode

end Gherkin
