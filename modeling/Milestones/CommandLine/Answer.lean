import Milestones.CommandLine.Arguments
import Milestones.CommandLine.Directory
import Milestones.CommandLine.Listing

/-!
# What the command line answers

The answer to some arguments depends on the files they name and, where no reference time
is given, on the clock.  Both are parameters here.

The exit code is 0 for an answer, 1 for a contract whose dependencies form a cycle, 2 for
any other refusal and 101 for a fault.

## Main definitions

* `Answer`: exit code and output.
* `Answer.ofArgs`: the answer to some arguments.
-/

namespace Milestones.CommandLine

open Datum

/-- What the program prints, and its exit code. -/
structure Answer where
  exitCode : Nat
  output : String := ""
  errors : String := ""
deriving DecidableEq

namespace Answer

/-- The answer printed on a line of its own. -/
def printed (s : String) : Answer := { exitCode := 0, output := s ++ "\n" }

/-- A refusal with the messages of an error and of what caused it. -/
def refused (messages : List String) : Answer :=
  { exitCode := 2, errors := "error: " ++ ": ".intercalate messages ++ "\n" }

/-- A refusal of the arguments. -/
def usage (e : UsageError) : Answer :=
  { exitCode := 2
    errors := "error: " ++ e.message ++ "\n\nFor more information, try '--help'.\n" }

/-- The end after a fault. -/
def fault : Answer := { exitCode := 101 }

end Answer

/-- The messages of an error and of what caused it. -/
def errorMessages (e : PlannerError) : List String :=
  match e with
  | .store cause => [e.message, cause.message]
  | .weights cause => [e.message, cause.message]
  | .trend cause => [e.message, cause.message]
  | .rejected _ cause => [e.message, cause.message]
  | .settings cause => [e.message, cause.message]
  | .schedule _ => [e.message]

/-- A cycle report as data. -/
def cycleDatum (r : CycleReport) : Datum :=
  record
    [("blocked", list (r.blocked.map ofId)),
      ("cycle_members", list (r.members.map ofId)),
      ("cycles", list (r.groups.map fun g => list (g.map ofId))),
      ("valid", bool false)]

/-- The titles of the milestones of a snapshot.  Of several with one identifier the last
one counts. -/
def titleOf (s : Snapshot) (id : MilestoneId) : String :=
  ((s.milestones.reverse.find? fun m => m.id == id).map Milestone.title).getD ""

/-- The answer of a command: as data, and as plain text. -/
def Command.ask (c : Command) (contract : ContractId) (now : Instant)
    (title : MilestoneId → String) : Planner.Run (Datum × String) :=
  match c with
  | .validate => do
    if !(← Planner.isAcyclic contract) then
      -- fails with the report of the cycles
      let _ ← Planner.order contract
    pure (record [("valid", bool true)], "dependency graph is acyclic")
  | .order => do
    let ids ← Planner.order contract
    pure (list (ids.map ofId), orderListing title ids)
  | .timeline => do
    let t ← Planner.timeline contract
    pure (t.toDatum, t.listing)
  | .stats => do
    let s ← Planner.completion contract now
    pure (s.toDatum, s.listing)
  | .risk => do
    let r ← Planner.risk contract
    pure (r.toDatum, r.listing)
  | .delays => do
    let d ← Planner.delays contract now
    pure (d.toDatum, d.listing)
  | .trend => do
    let t ← Planner.trend contract now
    pure (t.toDatum, t.listing)

/-- Answers a command about a snapshot. -/
def answerAbout (c : Command) (json : Bool) (snapshot : Snapshot) (settings : Settings)
    (now : Instant) (hashing : Hashing := {}) : Answer :=
  let title := titleOf snapshot
  match Planner.create (.ofSnapshot snapshot hashing) settings with
  | .error (.fault _) => .fault
  | .error (.refused e) => .refused (errorMessages e)
  | .ok p =>
    match ((c.ask snapshot.contractId now title).on p).1 with
    | .ok (data, plain) => .printed (if json then data.toPrettyJson else plain)
    | .error (.fault _) => .fault
    | .error (.refused e) =>
      match e.cycle? with
      | some r =>
        { Answer.printed (if json then (cycleDatum r).toPrettyJson else r.listing title) with
          exitCode := 1 }
      | none => .refused (errorMessages e)

/-- Reads the snapshot of a request. -/
def readSnapshot (files : Files) (path : String) : Except Answer Snapshot :=
  match files path with
  | .error e => .error (.refused ["reading snapshot " ++ path, e.message])
  | .ok content =>
    match (Datum.ofJson? content).bind Snapshot.ofDatum? with
    | none => .error (.refused ["parsing snapshot " ++ path, "the text is not a snapshot"])
    | some s => .ok s

/-- Reads the settings of a request. -/
def readSettings (files : Files) : Option String → Except Answer Settings
  | none => .ok {}
  | some path =>
    match files path with
    | .error e =>
      .error (.refused ["cannot read config " ++ path ++ ": " ++ e.message, e.message])
    | .ok content => (Settings.ofToml content).mapError fun e => .refused [e.message]

/-- Reads the reference time of a request. -/
def readNow (clock : Instant) : Option String → Except Answer Instant
  | none => .ok clock
  | some s =>
    match Instant.ofStrictText? s with
    | none => .error (.refused ["invalid --now " ++ s, "the text is not an RFC 3339 date"])
    | some t => .ok t

/-- Answers a request. -/
def answerRequest (files : Files) (clock : Instant) (r : Request) (hashing : Hashing := {}) :
    Answer :=
  let answer : Except Answer Answer := do
    let snapshot ← readSnapshot files r.snapshot
    let settings ← readSettings files r.config
    let now ← readNow clock r.now
    pure (answerAbout r.command r.json snapshot settings now hashing)
  match answer with
  | .ok a => a
  | .error a => a

/-- The files that some arguments name. -/
def pathsOf (args : List String) : List String :=
  match Invocation.ofArgs args with
  | .run r => r.snapshot :: r.config.toList
  | _ => []

/-- Answers some arguments, with hash maps that happen to be arranged in some way. -/
def Answer.ofArgs (files : Files) (clock : Instant) (args : List String)
    (hashing : Hashing := {}) : Answer :=
  match Invocation.ofArgs args with
  | .run r => answerRequest files clock r hashing
  | .version => { exitCode := 0, output := versionText }
  | .help topic => { exitCode := 0, output := topic.text }
  | .usage e => .usage e

end Milestones.CommandLine
