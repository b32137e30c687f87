import Gherkin.Report

/-
  What the command tells of itself: its version, and help on it, on its actions and on help. A page
  of help says what a thing does and how it is used, and has sections of entries in two columns.
-/

namespace Gherkin.Command

/-- What is written where the version is asked for. -/
def versionText : String := "featurette 0.1.0\n"

/-- An option with a value. -/
inductive Flag where
  | level
  | format
deriving DecidableEq

namespace Flag

/-- The name of an option. -/
def name : Flag → String
  | level => "--log-level"
  | format => "--format"

/-- What stands for the value of an option. -/
def valueName : Flag → String
  | level => "LOG_LEVEL"
  | format => "FORMAT"

/-- What an option sets, and its values. -/
def about : Flag → String
  | level => "Log level (trace, debug, info, warn, error)"
  | format => "Output format (json, pretty-json, summary)"

/-- The options, in the order of help. -/
def all : List Flag := [level, format]

end Flag

/-- The actions, in the order of help. -/
def allActions : List Action := [.parse, .expand]

/-- The name of an action. -/
def actionName : Action → String
  | .parse => "parse"
  | .expand => "expand"

/-- What an action does. -/
def actionAbout : Action → String
  | .parse => "Print the parsed document"
  | .expand => "Print the concrete steps of every outline example"

/-- What help does. -/
def helpAbout : String := "Print this message or the help of the given subcommand(s)"

/-- A section of a page: a title, and entries with what each of them means. -/
structure Section where
  title : String
  entries : List (String × String)

/-- The lines of a section; the meanings make a column behind the widest entry. -/
def Section.text (s : Section) : String :=
  let width := s.entries.foldl (fun width (entry, _) => max width entry.length) 0
  let line (entry meaning : String) :=
    let padded := String.ofList (entry.toList.rightpad width ' ')
    s!"  {padded}  {meaning}\n"
  s!"{s.title}:\n" ++ String.join (s.entries.map fun (entry, meaning) => line entry meaning)

/-- A page of help. -/
structure Page where
  about : String
  usage : String
  sections : List Section

/-- The text of a page; an empty line stands before each section. -/
def Page.text (p : Page) : String :=
  s!"{p.about}\n\nUsage: {p.usage}\n" ++ String.join (p.sections.map fun s => "\n" ++ s.text)

/-- The entries of the options that stand before and after an action. -/
def optionEntries : List (String × String) :=
  Flag.all.map (fun flag => (s!"    {flag.name} <{flag.valueName}>", flag.about)) ++
    [("-h, --help", "Print help")]

/-- What help is asked for about. -/
inductive Topic where
  | program
  | action (action : Action)
  /-- The asking for help itself. -/
  | help

/-- The page on a topic. -/
def Topic.page : Topic → Page
  | program =>
    let actions := allActions.map fun a => (actionName a, actionAbout a)
    ⟨"Command line front end for the featurette Gherkin parser", "featurette [OPTIONS] <COMMAND>",
      [⟨"Commands", actions ++ [("help", helpAbout)]⟩,
        ⟨"Options", optionEntries ++ [("-V, --version", "Print version")]⟩]⟩
  | action a =>
    ⟨actionAbout a, s!"featurette {actionName a} [OPTIONS] <FILE>",
      [⟨"Arguments", [("<FILE>", "Path to a `.feature` file")]⟩, ⟨"Options", optionEntries⟩]⟩
  | help =>
    ⟨helpAbout, "featurette help [COMMAND]...",
      [⟨"Arguments", [("[COMMAND]...", "Print help for the subcommand(s)")]⟩]⟩

end Gherkin.Command
