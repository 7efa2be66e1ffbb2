import Milestones.Text.Terminal

/-!
# Arguments of the command line

The first argument that is not an option names a command; the arguments after it belong to
the command.  An option takes its value from the same argument, after an equals sign, or
from the next one, unless that looks like an option itself.

## Main definitions

* `Request`: a command with its options.
* `Invocation`: a request, a text to print, or a usage error.
* `Invocation.ofArgs`: reads the arguments.
-/

namespace Milestones.CommandLine

/-- What can be asked for. -/
inductive Command where
  | validate
  | order
  | timeline
  | stats
  | risk
  | delays
  | trend
deriving DecidableEq

/-- The commands with their names. -/
def Command.names : List (String × Command) :=
  [("validate", .validate), ("order", .order), ("timeline", .timeline), ("stats", .stats),
    ("risk", .risk), ("delays", .delays), ("trend", .trend)]

/-- What a command does, in a few words. -/
def Command.summary : Command → String
  | validate => "Check the dependency graph for cycles"
  | order => "Print milestones in dependency order"
  | timeline => "Critical-path timeline"
  | stats => "Completion statistics"
  | risk => "Risk analysis"
  | delays => "Overdue milestones, most delayed first"
  | trend => "Completion trend from progress history"

/-- The name of a command. -/
def Command.name : Command → String
  | validate => "validate"
  | order => "order"
  | timeline => "timeline"
  | stats => "stats"
  | risk => "risk"
  | delays => "delays"
  | trend => "trend"

/-- A command with its options. -/
structure Request where
  command : Command
  /-- The path of the snapshot. -/
  snapshot : String
  /-- The path of the settings. -/
  config : Option String := none
  /-- The reference time, as written. -/
  now : Option String := none
  /-- The answer is wanted as JSON. -/
  json : Bool := false
deriving DecidableEq

/-- Why arguments are refused. -/
inductive UsageError where
  | noCommand
  | unknownCommand (arg : String)
  | unexpected (arg : String)
  | missingValue (option : String)
  | unwantedValue (option value : String)
  | repeated (option : String)
  | noSnapshot
deriving DecidableEq

/-- The message of a usage error.  Arguments are repeated as a terminal shows them. -/
def UsageError.message : UsageError → String
  | noCommand => "'milestone-engine' requires a subcommand but one was not provided"
  | unknownCommand arg => "unrecognized subcommand '" ++ withoutControls arg ++ "'"
  | unexpected arg => "unexpected argument '" ++ withoutControls arg ++ "' found"
  | missingValue option => "a value is required for '" ++ option ++ "' but none was supplied"
  | unwantedValue option value =>
    "unexpected value '" ++ withoutControls value ++ "' for '" ++ option ++
      "' found; no more were expected"
  | repeated option => "the argument '" ++ option ++ "' cannot be used multiple times"
  | noSnapshot => "the following required arguments were not provided:\n  --snapshot <snapshot>"

/-- What help is about. -/
inductive HelpTopic where
  | everything
  | command (c : Command)
  /-- The command that shows help. -/
  | help
deriving DecidableEq

/-- What the arguments ask for. -/
inductive Invocation where
  | run (r : Request)
  /-- The version. -/
  | version
  | help (topic : HelpTopic)
  | usage (e : UsageError)
deriving DecidableEq

/-! ## Single arguments -/

/-- What an argument looks like. -/
inductive Shape where
  /-- Two hyphens alone: no options follow. -/
  | escape
  /-- A long option with the value in the same argument. -/
  | long (name : String) (value : Option String)
  /-- Options of one letter. -/
  | short (letters : List Char)
  | plain
deriving DecidableEq

/-- What an argument looks like. -/
def Shape.of (arg : String) : Shape :=
  match arg.toList with
  | ['-', '-'] => .escape
  | '-' :: '-' :: rest =>
    let name := String.ofList (rest.takeWhile (· != '='))
    match rest.dropWhile (· != '=') with
    | [] => .long name none
    | _ :: value => .long name (some (String.ofList value))
  | '-' :: c :: rest => .short (c :: rest)
  | _ => .plain

/-- The one-letter option as it is written. -/
def shortText (letter : Char) : String := String.ofList ['-', letter]

/-! ## The arguments of a command -/

/-- The options that take a value. -/
inductive Valued where
  | snapshot
  | config
  | now
deriving DecidableEq

namespace Valued

/-- The options with their names. -/
def names : List (String × Valued) := [("snapshot", snapshot), ("config", config), ("now", now)]

/-- The option as messages show it. -/
def display : Valued → String
  | snapshot => "--snapshot <snapshot>"
  | config => "--config <config>"
  | now => "--now <now>"

/-- The option names a file, and no file has an empty name. -/
def isPath : Valued → Bool
  | now => false
  | _ => true

end Valued

/-- The options of a command as far as they are read. -/
structure Progress where
  values : List (Valued × String) := []
  /-- The option read last, with its value if that came; it counts when the next one is
  read, or at the end. -/
  pending : Option (Valued × Option String) := none
  json : Bool := false
  logJson : Bool := false

namespace Progress

/-- Takes the value of an option. -/
def accept (p : Progress) (o : Valued) (value : String) : Except UsageError Progress :=
  if (p.values.lookup o).isSome then .error (.repeated o.display)
  else if o.isPath ∧ value = "" then .error (.missingValue o.display)
  else .ok { p with values := (o, value) :: p.values, pending := none }

/-- Settles the option read last. -/
def settle (p : Progress) : Except UsageError Progress :=
  match p.pending with
  | none => .ok p
  | some (o, none) => .error (.missingValue o.display)
  | some (o, some value) => p.accept o value

/-- Sets a flag, which takes no value. -/
def flag (p : Progress) (name : String) (isSet : Bool) (value : Option String)
    (set : Progress → Progress) : Except UsageError Progress := do
  match value with
  | some v => .error (.unwantedValue name v)
  | none =>
    let p ← p.settle
    if isSet then .error (.repeated name) else .ok (set p)

/-- What a finished reading asks for. -/
def finish (p : Progress) (command : Command) : Invocation :=
  match p.settle with
  | .error e => .usage e
  | .ok p =>
    match p.values.lookup .snapshot with
    | none => .usage .noSnapshot
    | some snapshot =>
      .run
        { command := command
          snapshot := snapshot
          config := p.values.lookup .config
          now := p.values.lookup .now
          json := p.json }

end Progress

/-- Settles the option read last and then shows help. -/
def helpAfter (p : Progress) (command : Command) (value : Option String) : Invocation :=
  match value with
  | some v => .usage (.unwantedValue "--help" v)
  | none =>
    match p.settle with
    | .error e => .usage e
    | .ok _ => .help (.command command)

/-- Reads the arguments of a command. -/
def readOptions (command : Command) : Progress → List String → Invocation
  | p, [] => p.finish command
  | p, arg :: rest =>
    match Shape.of arg with
    | .escape =>
      match rest with
      | [] => p.finish command
      | extra :: _ => .usage (.unexpected extra)
    | .long name value =>
      match Valued.names.lookup name with
      | some o =>
        match p.settle with
        | .error e => .usage e
        | .ok p =>
          match value with
          | none => readOptions command { p with pending := some (o, none) } rest
          | some v =>
            match p.accept o v with
            | .error e => .usage e
            | .ok p => readOptions command p rest
      | none =>
        if name = "json" then
          match p.flag "--json" p.json value fun p => { p with json := true } with
          | .error e => .usage e
          | .ok p => readOptions command p rest
        else if name = "log-json" then
          match p.flag "--log-json" p.logJson value fun p => { p with logJson := true } with
          | .error e => .usage e
          | .ok p => readOptions command p rest
        else if name = "help" then helpAfter p command value
        else .usage (.unexpected ("--" ++ name))
    | .short letters =>
      match letters with
      | 'h' :: _ => helpAfter p command none
      | letter :: _ => .usage (.unexpected (shortText letter))
      | [] => .usage (.unexpected arg)
    | .plain =>
      match p.pending with
      | some (o, none) => readOptions command { p with pending := some (o, some arg) } rest
      | _ => .usage (.unexpected arg)

/-! ## All arguments -/

/-- Reads the arguments of the command that shows help. -/
def readHelp : List String → Invocation
  | [] => .help .everything
  | arg :: rest =>
    let topic? := if arg = "help" then some .help else (Command.names.lookup arg).map .command
    match topic?, rest with
    | some topic, [] => .help topic
    | some _, extra :: _ => .usage (.unknownCommand extra)
    | none, _ => .usage (.unknownCommand arg)

/-- Reads the argument after two hyphens: no command may stand there. -/
def readEscaped : List String → Invocation
  | [] => .usage .noCommand
  | arg :: _ =>
    if (Command.names.lookup arg).isSome ∨ arg = "help" then .usage (.unexpected arg)
    else .usage (.unknownCommand arg)

/-- Reads arguments up to the command; `logJson` tells whether that flag was set. -/
def readArgs (logJson : Bool) : List String → Invocation
  | [] => .usage .noCommand
  | arg :: rest =>
    match Shape.of arg with
    | .escape => readEscaped rest
    | .long name value =>
      if name = "log-json" then
        match value with
        | some v => .usage (.unwantedValue "--log-json" v)
        | none => if logJson then .usage (.repeated "--log-json") else readArgs true rest
      else if name = "help" ∨ name = "version" then
        match value with
        | some v => .usage (.unwantedValue ("--" ++ name) v)
        | none => if name = "help" then .help .everything else .version
      else .usage (.unexpected ("--" ++ name))
    | .short letters =>
      match letters with
      | 'h' :: _ => .help .everything
      | 'V' :: _ => .version
      | letter :: _ => .usage (.unexpected (shortText letter))
      | [] => .usage (.unexpected arg)
    | .plain =>
      match Command.names.lookup arg with
      | some command => readOptions command {} rest
      | none => if arg = "help" then readHelp rest else .usage (.unknownCommand arg)

/-- Reads the arguments. -/
def Invocation.ofArgs (args : List String) : Invocation := readArgs false args

/-! ## Texts -/

/-- The name and version of the program. -/
def versionText : String := "milestone-engine 0.1.0\n"

/-- What the command that shows help does. -/
def helpSummary : String := "Print this message or the help of the given subcommand(s)"

/-- The help on everything. -/
def overviewText : String :=
  let row (name summary : String) : String :=
    "  " ++ name ++ String.ofList (List.replicate (10 - name.length) ' ') ++ summary ++ "\n"
  "Dependency validation, critical-path scheduling and progress reports for contract " ++
    "milestones\n\nUsage: milestone-engine [OPTIONS] <COMMAND>\n\nCommands:\n" ++
    String.join (Command.names.map fun (name, command) => row name command.summary) ++
    row "help" helpSummary ++
    "\nOptions:\n" ++
    "      --log-json  Emit logs as JSON lines on stderr\n" ++
    "  -h, --help      Print help\n" ++
    "  -V, --version   Print version\n"

/-- The help on one command. -/
def Command.helpText (c : Command) : String :=
  c.summary ++ "\n\nUsage: milestone-engine " ++ c.name ++
    " [OPTIONS] --snapshot <snapshot>\n\nOptions:\n" ++
    "      --log-json             Emit logs as JSON lines on stderr\n" ++
    "      --snapshot <snapshot>  JSON contract snapshot (milestones, dependencies, progress " ++
    "history)\n" ++
    "      --config <config>      Engine config TOML\n" ++
    "      --json                 Output as JSON\n" ++
    "      --now <now>            Reference time for reports (RFC 3339), defaults to the " ++
    "current time\n" ++
    "  -h, --help                 Print help\n"

/-- The help on a topic. -/
def HelpTopic.text : HelpTopic → String
  | everything => overviewText
  | command c => c.helpText
  | help =>
    helpSummary ++ "\n\nUsage: milestone-engine help [COMMAND]...\n\nArguments:\n" ++
      "  [COMMAND]...  Print help for the subcommand(s)\n"

end Milestones.CommandLine
