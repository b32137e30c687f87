import Gherkin.Help
import Gherkin.Run

/-
  The command line. Options may stand before and after the action, each once on either side, and the
  later one counts; two dashes end the options. The arguments are read from left to right, and the
  first one that is wrong, or that asks for the version or for help, decides. Flags are checked
  before the environment is looked at, and the environment is checked even where flags replace its
  settings.
-/

namespace Gherkin.Command

/-- The options of one side of the action. -/
structure Options where
  level : Option Level
  format : Option Format

/-- No options. -/
def Options.none : Options := ⟨Option.none, Option.none⟩

/-- The options of both sides: those before the action where there are none after it. -/
def Options.orElse (later before : Options) : Options :=
  ⟨later.level.or before.level, later.format.or before.format⟩

/-- The option that an argument names, with the value after an equals sign. -/
def Flag.ofArgument? (arg : String) : Option (Flag × Option String) :=
  all.findSome? fun flag =>
    match flag.name.toList.isPrefixOf? arg.toList with
    | some [] => some (flag, .none)
    | some ('=' :: value) => some (flag, some (String.ofList value))
    | _ => .none

/-- Sets an option that is not set yet. -/
def Options.set? (o : Options) (flag : Flag) (value : String) : Option Options :=
  match flag, o with
  | .level, ⟨.none, format⟩ => (Level.ofName value).toOption.map fun l => ⟨some l, format⟩
  | .format, ⟨level, .none⟩ => (Format.ofName value).toOption.map fun f => ⟨level, some f⟩
  | _, _ => .none

/-- What is asked for. -/
inductive Request where
  | version
  | help (topic : Topic)
  | run (action : Action) (path : String) (options : Options)

/-- The action of a name. -/
def action? (name : String) : Option Action := allActions.find? fun a => actionName a = name

/-- The topic of the arguments after the word for help. -/
def topic? : List String → Option Topic
  | [] => some .program
  | ["help"] => some .help
  | [name] => (action? name).map .action
  | _ => none

/-- The path that is asked for, of the one read before and the arguments after two dashes. -/
def path? : Option String → List String → Option String
  | some path, [] => some path
  | none, [path] => if path = "" then none else some path
  | _, _ => none

/-- The argument is an option or looks like one; a single dash is a path. -/
def isOption (arg : String) : Bool := arg.toList.head? = some '-' && arg != "-"

/-- The argument is a switch: its name, or short switches of which it is the first. -/
def isSwitch (name : String) (short : Char) (arg : String) : Bool :=
  arg = name || ['-', short].isPrefixOf arg.toList

/-- The argument asks for the version. -/
def asksVersion (arg : String) : Bool := isSwitch "--version" 'V' arg

/-- The argument asks for help. -/
def asksHelp (arg : String) : Bool := isSwitch "--help" 'h' arg

/-- Reads the arguments after an action: the options of this side, and the path. -/
def readPath (action : Action) (before o : Options) (path : Option String) :
    List String → Option Request
  | [] => path.map fun p => .run action p (o.orElse before)
  | arg :: rest =>
    if arg = "--" then (path? path rest).map fun p => .run action p (o.orElse before)
    else if asksHelp arg then some (.help (.action action))
    else match Flag.ofArgument? arg with
      | some (flag, some value) =>
        (o.set? flag value).bind fun o => readPath action before o path rest
      | some (flag, none) =>
        match rest with
        | value :: rest => (o.set? flag value).bind fun o => readPath action before o path rest
        | [] => none
      | none =>
        if isOption arg || path.isSome || arg = "" then none
        else readPath action before o (some arg) rest

/-- Reads the arguments from the first one; none if they are not used rightly. -/
def readArguments (o : Options) : List String → Option Request
  | [] => none
  | arg :: rest =>
    if asksVersion arg then some .version
    else if asksHelp arg then some (.help .program)
    else match Flag.ofArgument? arg with
      | some (flag, some value) => (o.set? flag value).bind fun o => readArguments o rest
      | some (flag, none) =>
        match rest with
        | value :: rest => (o.set? flag value).bind fun o => readArguments o rest
        | [] => none
      | none =>
        if arg = "help" then (topic? rest).map .help
        else (action? arg).bind fun action => readPath action o .none none rest

/-- What an invocation leaves behind: its exit code, its output, and the events it reported. -/
structure Outcome where
  exit : UInt8
  output : List UInt8
  events : List Event

/-- A run that is to be made. -/
structure Job where
  action : Action
  path : String
  settings : Settings

/-- The events that a level lets through. -/
def heard (level : Level) (events : List Event) : List Event :=
  events.filter fun e => level.gravity ≤ e.level.gravity

/-- What the arguments and the environment ask for: a run, or an outcome without one. -/
def plan (args : List String) (environment : String → Option String) : Except Outcome Job :=
  match readArguments .none args with
  | none => .error ⟨2, [], []⟩
  | some .version => .error ⟨0, Text.Utf8.encode versionText, []⟩
  | some (.help topic) => .error ⟨0, Text.Utf8.encode topic.page.text, []⟩
  | some (.run action path options) =>
    match Settings.ofEnvironment environment with
    | .ok settings => .ok ⟨action, path, settings.override options.level options.format⟩
    | .error fault => .error ⟨2, [], heard Settings.default.level [.misconfigured fault.describe]⟩

/-- Makes a run, given what reading its file gave. -/
def Job.perform (job : Job) (content : Except ReadFault (List UInt8)) : Outcome :=
  let done := Gherkin.run job.path job.action job.settings.format content .endless
  match done.result with
  | .ok () => ⟨0, done.output, heard job.settings.level done.events⟩
  | .error fault =>
    ⟨1, done.output, heard job.settings.level (done.events ++ [.failed fault.chain])⟩

/-- An invocation with the files that it may read. -/
def invoke (args : List String) (environment : String → Option String)
    (files : String → Except ReadFault (List UInt8)) : Outcome :=
  match plan args environment with
  | .ok job => job.perform (files job.path)
  | .error outcome => outcome

end Gherkin.Command
