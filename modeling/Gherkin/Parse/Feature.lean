import Gherkin.Feature
import Gherkin.Parse.Scenario
import Gherkin.Window

/-
  Documents: a feature with its background and scenarios, or a scenario on its own. A document is
  read to its end, and the first fault is the result.
-/

namespace Gherkin.Parse

/-- The heading of a plain scenario or of an outline. -/
def opensScenario (s : Shape) : Bool := s = .heading .scenario || s = .heading .scenarioOutline

/-- The background with its tags, if one comes next. -/
def background? (c : Cursor) : Logged Fault (Option Block × Cursor) := do
  let (ts, afterTags) ← Logged.lift (tags c)
  let next ← Logged.lift afterTags.peek
  if next.shape = .heading .background then
    let (b, rest) ← background ts afterTags
    return (some b, rest)
  else return (none, c)

/-- Another scenario with its tags comes next, or else the end of the text; anything else is a
fault. -/
def scenarioAhead (c : Cursor) : Except Fault Bool := do
  let (ts, afterTags) ← tags c
  let next ← afterTags.peek
  if opensScenario next.shape then return true
  else if ts ≠ [] then throw (next.reject .unexpectedLine .sectionAfterTags)
  else if next.shape = .end then return false
  else throw (next.reject .unexpectedLine .scenario)

/-- A scenario with its tags. -/
def taggedScenario (c : Cursor) : Logged Fault (Scenario × Cursor) := do
  let (ts, c) ← Logged.lift (tags c)
  scenario ts c

theorem size_of_taggedScenario {c rest : Cursor} {s : Scenario}
    (h : (taggedScenario c).result = .ok (s, rest)) : rest.size < c.size := by
  rw [taggedScenario, Logged.result_bind] at h
  obtain ⟨⟨ts, d⟩, hd, h⟩ := bind_eq_ok.1 h
  exact Nat.lt_of_lt_of_le (size_of_scenario h) (size_of_tags hd)

/-- The scenarios up to the end of the text. -/
def scenarios (c : Cursor) : Logged Fault (List Scenario) := do
  if ← Logged.lift (scenarioAhead c) then
    match h : (taggedScenario c).result with
    | .error f => ⟨(taggedScenario c).events, .error f⟩
    | .ok (first, rest) =>
      have : rest.size < c.size := size_of_taggedScenario h
      let more := scenarios rest
      ⟨(taggedScenario c).events ++ more.events, more.result.map (first :: ·)⟩
  else return []
termination_by c.size

/-- The kind of fault where a document's heading is missing: after tags it is a line that cannot
follow them, else the text is no document at all. -/
def headingFault (ts : List Tag) : Fault.Kind := if ts = [] then .malformed else .unexpectedLine

/-- A feature from the first line of a text to its last. -/
def feature (c : Cursor) : Logged Fault Feature := do
  let (ts, c) ← Logged.lift (tags c)
  let next ← Logged.lift c.peek
  if next.shape = .heading .feature then
    let ((line, name), c) ← Logged.lift (heading .feature c)
    let (description, c) ← Logged.lift (description c)
    Logged.report (.featureOpened name line)
    let (background, c) ← background? c
    let scenarios ← scenarios c
    if scenarios = [] then
      let last ← Logged.lift c.peek
      Logged.lift (throw ⟨last.line, .noScenarios name⟩)
    else return ⟨name, description, ts, background, scenarios⟩
  else Logged.lift (throw (next.reject (headingFault ts) (.heading .feature)))

/-- A scenario from the first line of a text to its last. -/
def loneScenario (c : Cursor) : Logged Fault Scenario := do
  let (ts, c) ← Logged.lift (tags c)
  let next ← Logged.lift c.peek
  if opensScenario next.shape then
    let (s, c) ← scenario ts c
    let last ← Logged.lift c.peek
    if last.shape = .end then return s
    else Logged.lift (throw (last.reject .unexpectedLine .scenarioEnd))
  else Logged.lift (throw (next.reject (headingFault ts) .scenario))

end Gherkin.Parse

namespace Gherkin

/-- Parses a feature and reports the sections opened and how it ended. -/
def Feature.read (text : String) : Logged Fault Feature :=
  match Parse.feature (Cursor.ofText text) with
  | ⟨events, .ok f⟩ => ⟨events ++ [.parsed f.name f.scenarios.length], .ok f⟩
  | ⟨events, .error e⟩ => ⟨events ++ [.rejected e], .error e⟩

/-- The feature that a text is. -/
def Feature.ofText (text : String) : Except Fault Feature := (Feature.read text).result

/-- Parses a scenario that stands alone and reports that it was opened. -/
def Scenario.read (text : String) : Logged Fault Scenario := Parse.loneScenario (Cursor.ofText text)

/-- The scenario that a text is. -/
def Scenario.ofText (text : String) : Except Fault Scenario := (Scenario.read text).result

end Gherkin
