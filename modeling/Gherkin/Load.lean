import Gherkin.Parse.Feature
import Gherkin.Text.Utf8

/-
  Features from bytes and from files. The bytes are UTF-8, and one byte order mark before the text
  is dropped.
-/

namespace Gherkin

/-- Why a file could not be read. -/
inductive ReadFault where
  | notFound
  | isDirectory
  | notDirectory
  | other (reason : String)
deriving DecidableEq

/-- The wording of a failed reading. -/
def ReadFault.describe : ReadFault → String
  | notFound => "No such file or directory (os error 2)"
  | isDirectory => "Is a directory (os error 21)"
  | notDirectory => "Not a directory (os error 20)"
  | other reason => reason

/-- Why a feature could not be loaded. -/
inductive LoadFault where
  | unreadable (path : String) (fault : ReadFault)
  | undecodable (fault : Text.Utf8.Fault)
  | unparsable (fault : Fault)
deriving DecidableEq

namespace LoadFault

/-- The wording of a failed loading. -/
def describe : LoadFault → String
  | unreadable path fault => s!"failed to read feature file {path}: {fault.describe}"
  | undecodable fault => s!"feature text is not valid UTF-8: {fault.describe}"
  | unparsable fault => fault.describe

/-- The wording followed by that of what lies under it; a fault of the text stands for itself. -/
def chain (f : LoadFault) : String :=
  match f with
  | unreadable _ fault => s!"{f.describe}: {fault.describe}"
  | undecodable fault => s!"{f.describe}: {fault.describe}"
  | unparsable _ => f.describe

end LoadFault

/-- A text without the byte order mark before it. -/
def dropMark : List Char → List Char
  | '\ufeff' :: text => text
  | text => text

namespace Feature

/-- Parses the feature that bytes hold. -/
def readBytes (bytes : List UInt8) : Logged LoadFault Feature :=
  match Text.Utf8.decode bytes with
  | .ok text => (Feature.read (String.ofList (dropMark text))).mapError .unparsable
  | .error fault => Logged.lift (.error (.undecodable fault))

/-- The feature that bytes hold. -/
def ofBytes (bytes : List UInt8) : Except LoadFault Feature := (readBytes bytes).result

/-- Loads the feature of a file, given what reading the file gave. -/
def load (path : String) (content : Except ReadFault (List UInt8)) : Logged LoadFault Feature := do
  match content with
  | .ok bytes =>
    Logged.report (.read bytes.length path)
    readBytes bytes
  | .error fault => Logged.lift (throw (.unreadable path fault))

end Feature

theorem result_readBytes {bytes : List UInt8} {text : List Char}
    (h : Text.Utf8.decode bytes = .ok text) : (Feature.readBytes bytes).result =
      (Feature.ofText (String.ofList (dropMark text))).mapError .unparsable := by
  rw [Feature.readBytes, h]
  rfl

end Gherkin
