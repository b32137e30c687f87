import Gherkin.Event

/-
  Settings of the command: how much it reports and in which form it writes. A setting is taken from
  a flag, else from a variable of the environment, else it has a default. Names are matched without
  regard to the case of ASCII letters, which is all there is in them.
-/

namespace Gherkin

/-- The form of the output. -/
inductive Format where
  | json
  | prettyJson
  | summary
deriving DecidableEq

/-- A text that names no setting. -/
inductive SettingFault where
  | unknownLevel (name : String)
  | unknownFormat (name : String)
deriving DecidableEq

/-- The wording of a wrong setting. -/
def SettingFault.describe : SettingFault → String
  | unknownLevel name =>
    s!"invalid configuration: unknown log level '{name}', expected one of: " ++
      "trace, debug, info, warn, error"
  | unknownFormat name =>
    s!"invalid configuration: unknown output format '{name}', expected one of: " ++
      "json, pretty-json, summary"

/-- The level of a name. -/
def Level.ofName (name : String) : Except SettingFault Level :=
  match name.toLower with
  | "trace" => .ok trace
  | "debug" => .ok debug
  | "info" => .ok info
  | "warn" | "warning" => .ok warn
  | "error" => .ok error
  | _ => .error (.unknownLevel name)

/-- The format of a name. -/
def Format.ofName (name : String) : Except SettingFault Format :=
  match name.toLower with
  | "json" => .ok json
  | "pretty-json" | "pretty" => .ok prettyJson
  | "summary" => .ok summary
  | _ => .error (.unknownFormat name)

/-- The name of a format. -/
def Format.name : Format → String
  | json => "json"
  | prettyJson => "pretty-json"
  | summary => "summary"

/-- What is set for a run. -/
structure Settings where
  level : Level
  format : Format
deriving DecidableEq

namespace Settings

/-- The settings where nothing is set: problems only, and a summary. -/
def default : Settings := ⟨.warn, .summary⟩

/-- The variable that sets the level. -/
def levelVariable : String := "FEATURETTE_LOG_LEVEL"

/-- The variable that sets the format. -/
def formatVariable : String := "FEATURETTE_FORMAT"

/-- The settings of an environment. -/
def ofEnvironment (lookup : String → Option String) : Except SettingFault Settings := do
  let level ← (lookup levelVariable).mapM Level.ofName
  let format ← (lookup formatVariable).mapM Format.ofName
  return ⟨level.getD default.level, format.getD default.format⟩

/-- The settings with those of the flags in their place. -/
def override (s : Settings) (level : Option Level) (format : Option Format) : Settings :=
  ⟨level.getD s.level, format.getD s.format⟩

end Settings

end Gherkin
