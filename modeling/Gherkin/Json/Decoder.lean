import Gherkin.Json.Draft
import Gherkin.Text.Shown

/-
  Decoding of drafts. A decoder takes the parts of a draft from left to right and stops at the first
  thing wrong; a fault in the draft is met like any other value.
-/

namespace Gherkin.Json

/-- Why a text or a value does not decode. -/
inductive DecodeError where
  /-- The text is not JSON, or goes on where the value should end. -/
  | malformed
  | wrongType (found expected : String)
  | wrongLength (length : Nat) (expected : String)
  | unknownField (name : String) (fields : List String)
  | duplicateField (name : String)
  | missingField (name : String)
  | unknownVariant (name : String) (variants : List String)
  /-- No alternative of a type fits. -/
  | noAlternative (type : String)
deriving DecidableEq

/-- An enumeration of names in a message. -/
def oneOf : List String → String
  | [a, b] => s!"`{a}` or `{b}`"
  | names => "one of " ++ ", ".intercalate (names.map fun n => s!"`{n}`")

/-- The wording of an error. -/
def DecodeError.message : DecodeError → String
  | malformed => "malformed JSON"
  | wrongType found expected => s!"invalid type: {found}, expected {expected}"
  | wrongLength length expected => s!"invalid length {length}, expected {expected}"
  | unknownField name fields => s!"unknown field `{name}`, expected {oneOf fields}"
  | duplicateField name => s!"duplicate field `{name}`"
  | missingField name => s!"missing field `{name}`"
  | unknownVariant name variants => s!"unknown variant `{name}`, expected {oneOf variants}"
  | noAlternative type => s!"data did not match any variant of untagged enum {type}"

/-- How a number is called in a message. -/
def Number.describe (n : Number) : String :=
  match n with
  | integer _ => s!"integer `{n.text}`"
  | float _ => s!"floating point `{n.text}`"

namespace Draft

/-- The error of a draft that stands where something else is expected. -/
def mismatch (expected : String) : Draft → DecodeError
  | null => .wrongType "null" expected
  | bool b => .wrongType s!"boolean `{b}`" expected
  | number n => .wrongType n.describe expected
  | string s => .wrongType s!"string {Text.quote s}" expected
  | array _ => .wrongType "sequence" expected
  | object _ => .wrongType "map" expected
  | fault => .malformed

/-- A string. -/
def asString : Draft → Except DecodeError String
  | string s => .ok s
  | d => .error (d.mismatch "a string")

/-- An array of values. -/
def asList {α : Type} (item : Draft → Except DecodeError α) : Draft → Except DecodeError (List α)
  | array items => items.mapM item
  | d => .error (d.mismatch "a sequence")

/-- A value or null. -/
def asOption {α : Type} (value : Draft → Except DecodeError α) :
    Draft → Except DecodeError (Option α)
  | null => .ok none
  | d => (value d).map some

/-- Null. -/
def asNull : Draft → Except DecodeError Unit
  | null => .ok ()
  | d => .error (d.mismatch "unit")

end Draft

/-- How a structure is decoded: its fields in order, the parts read so far of one (`σ`), how a field
is added to them, and how the whole is made of them; `finish` is given the error of a field that is
missing. -/
structure Record (σ α : Type) where
  name : String
  fields : List String
  start : σ
  put : String → Draft → σ → Except DecodeError σ
  finish : (String → DecodeError) → σ → Except DecodeError α

namespace Record

/-- Adds a member of an object to the parts. -/
def putMember {σ α : Type} (r : Record σ α) (parts : σ) :
    Option String × Draft → Except DecodeError σ
  | (some k, d) => if k ∈ r.fields then r.put k d parts else .error (.unknownField k r.fields)
  | (none, _) => .error .malformed

/-- The error of a field that an array ends before. -/
def tooShort {σ α : Type} (r : Record σ α) (field : String) : DecodeError :=
  .wrongLength (r.fields.idxOf field) s!"struct {r.name} with {r.fields.length} elements"

/-- A structure: an object of its fields in any order, or an array of its fields in order. -/
def decode {σ α : Type} (r : Record σ α) : Draft → Except DecodeError α
  | .object members => do
    let parts ← members.foldlM r.putMember r.start
    r.finish .missingField parts
  | .array items => do
    let parts ← (r.fields.zip items).foldlM (fun parts (k, d) => r.put k d parts) r.start
    if r.fields.length < items.length then throw .malformed
    r.finish r.tooShort parts
  | d => .error (d.mismatch s!"struct {r.name}")

end Record

/-- Fills a field that was not there yet. -/
def fill {β : Type} (field : String) (value : Draft → Except DecodeError β) (slot : Option β)
    (d : Draft) : Except DecodeError (Option β) :=
  match slot with
  | some _ => .error (.duplicateField field)
  | none => (value d).map some

/-- A field that has to be there. -/
def require {β : Type} (missing : String → DecodeError) (field : String) (slot : Option β) :
    Except DecodeError β :=
  match slot with
  | some v => .ok v
  | none => .error (missing field)

/-- The name of an alternative and the value that belongs to it: an object with that one member.
`bare` decodes an alternative given by its name alone. -/
def alternative {κ α : Type} (name : String → Except DecodeError κ)
    (bare : κ → Except DecodeError α) (value : κ → Draft → Except DecodeError α) :
    Draft → Except DecodeError α
  | .string s => do bare (← name s)
  | .object ((some k, d) :: more) => do
    let v ← value (← name k) d
    if more.isEmpty then return v else throw .malformed
  | _ => .error .malformed

/-- Decodes a text; something after the value is a fault once the value itself is right. -/
def decodeText {α : Type} (decode : Draft → Except DecodeError α) (text : String) :
    Except DecodeError α := do
  let reading := Draft.read text
  let v ← decode reading.finish
  if reading.isExcess then throw .malformed else return v

/-- Decodes a value. -/
def decodeJson {α : Type} (decode : Draft → Except DecodeError α) (j : Json) :
    Except DecodeError α :=
  decode (Draft.ofJson j)

end Gherkin.Json
