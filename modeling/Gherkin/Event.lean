import Gherkin.Fault
import Gherkin.Text.Terminal

/-
  What a run reports while it works. An event has a level, a target, a message and, apart from it,
  named values.
-/

namespace Gherkin

/-- How much a run reports: the events of a level and those that are graver. -/
inductive Level where
  | trace
  | debug
  | info
  | warn
  | error
deriving DecidableEq

namespace Level

/-- The gravity of a level. -/
def gravity : Level → Nat
  | trace => 0
  | debug => 1
  | info => 2
  | warn => 3
  | error => 4

/-- The level as a setting names it. -/
def name : Level → String
  | trace => "trace"
  | debug => "debug"
  | info => "info"
  | warn => "warn"
  | error => "error"

/-- The level as a log line shows it. -/
def label : Level → String
  | trace => "TRACE"
  | debug => "DEBUG"
  | info => "INFO"
  | warn => "WARN"
  | error => "ERROR"

end Level

/-- The events of a run. -/
inductive Event where
  /-- A file was read. -/
  | read (bytes : Nat) (path : String)
  | featureOpened (name : String) (line : Nat)
  | backgroundOpened (line : Nat)
  | scenarioOpened (name : String) (outline : Bool) (line : Nat)
  /-- A feature was parsed. -/
  | parsed (name : String) (scenarios : Nat)
  /-- A text is no feature. -/
  | rejected (fault : Fault)
  /-- A feature was loaded from a file. -/
  | loaded (path : String) (scenarios : Nat)
  /-- The command failed. -/
  | failed (reason : String)
  /-- The settings of the command are no settings. -/
  | misconfigured (reason : String)
deriving DecidableEq

namespace Event

/-- The level of an event. -/
def level : Event → Level
  | featureOpened _ _ | backgroundOpened _ | scenarioOpened _ _ _ => .trace
  | read _ _ | parsed _ _ | rejected _ => .debug
  | loaded _ _ => .info
  | failed _ | misconfigured _ => .error

/-- The part of the program that an event belongs to. -/
def target : Event → String
  | featureOpened _ _ | backgroundOpened _ | scenarioOpened _ _ _ => "featurette::parser"
  | read _ _ => "featurette::load"
  | parsed _ _ | rejected _ | failed _ | misconfigured _ => "featurette"
  | loaded _ _ => "featurette_cli"

/-- The message of an event. -/
def message : Event → String
  | read bytes path => s!"loaded {bytes} bytes from {path}"
  | featureOpened name line => s!"feature '{name}' opened on line {line}"
  | backgroundOpened line => s!"background opened on line {line}"
  | scenarioOpened name outline line =>
    let kind := if outline then "Outline" else "Simple"
    s!"scenario '{name}' ({kind}) opened on line {line}"
  | parsed name scenarios => s!"parsed feature '{name}' with {scenarios} scenario(s)"
  | rejected fault => s!"feature parse failed: {fault.describe}"
  | loaded _ _ => "loaded feature"
  | failed _ => "featurette failed"
  | misconfigured _ => "invalid configuration"

/-- The values that an event names beside its message. -/
def values : Event → List (String × String)
  | loaded path scenarios => [("path", path), ("scenarios", toString scenarios)]
  | failed reason | misconfigured reason => [("error", reason)]
  | read _ _ | featureOpened _ _ | backgroundOpened _ | scenarioOpened _ _ _ | parsed _ _
  | rejected _ => []

/-- An event as a log line shows it: the message, spelled for a terminal, and the values. -/
def describe (e : Event) : String :=
  let values := e.values.map fun (name, value) => s!" {name}={value}"
  s!"{e.level.label} {e.target}: {Text.spell e.message}" ++ String.join values

end Event

end Gherkin
