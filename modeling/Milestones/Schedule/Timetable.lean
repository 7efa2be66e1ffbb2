import Milestones.Failure
import Milestones.Graph.WorkOrder

/-!
# Timetables

A timetable says for every milestone of a contract when it can start and finish, as offsets
from the start of the schedule.  The forward pass goes along the order of work: a milestone
starts when the last of its prerequisites finishes.  The backward pass goes against it: a
milestone has to finish before the first of its dependents has to start.  Only links that
are prerequisites constrain timing.

The difference between the latest and the earliest start is the slack.  A milestone without
slack is critical, and a chain of critical milestones spans the whole schedule.

## Main definitions

* `Timing`: the offsets of one milestone.
* `Timetable`: the timings of a contract with their totals and a critical chain.
* `Graph.timetable`: the timetable of a graph along an order of work.
-/

namespace Milestones

/-- When a milestone can start and finish. -/
structure Timing where
  milestoneId : MilestoneId
  duration : Duration
  earliestStart : Duration
  earliestFinish : Duration
  /-- The latest start that does not delay the contract. -/
  latestStart : Duration
  /-- The latest finish that does not delay the contract. -/
  latestFinish : Duration
  /-- How far the milestone can slip without delaying the contract. -/
  slack : Duration
  /-- How far the milestone can slip without delaying any of its dependents. -/
  freeSlack : Duration
deriving DecidableEq

/-- The milestone cannot slip at all. -/
def Timing.isCritical (t : Timing) : Bool := t.slack == .zero

/-- The timetable of a contract. -/
structure Timetable where
  contractId : ContractId
  /-- The timings in the order of work. -/
  timings : List Timing
  /-- The latest of the earliest finishes. -/
  total : Duration
  /-- The length of the critical chain, summed milestone by milestone. -/
  criticalPathDuration : Duration
  /-- The sum of all slack. -/
  slackTime : Duration
  /-- A chain of critical milestones from the start of the schedule to its end. -/
  criticalChain : List MilestoneId
deriving DecidableEq

namespace Timetable

/-- The timing of a milestone. -/
def timing? (t : Timetable) (id : MilestoneId) : Option Timing :=
  t.timings.find? fun x => x.milestoneId == id

/-- The milestone cannot slip at all. -/
def isCritical (t : Timetable) (id : MilestoneId) : Bool := (t.timing? id).any Timing.isCritical

/-- The critical milestones in the order of work. -/
def critical (t : Timetable) : List MilestoneId :=
  (t.timings.filter Timing.isCritical).map Timing.milestoneId

end Timetable

/-- Why a contract has no schedule. -/
inductive ScheduleError where
  | graph (e : GraphError)
  | cycle (r : CycleReport)
  | negativeDuration (id : MilestoneId) (seconds : Int)
  | overflow (id : MilestoneId)
  | orderMismatch (c : ContractId)
deriving DecidableEq

/-- The message of a refusal. -/
def ScheduleError.message : ScheduleError → String
  | graph e => e.message
  | cycle r => r.message
  | negativeDuration id seconds =>
    "milestone " ++ id.text ++ " has negative estimated duration (" ++ toString seconds ++ "s)"
  | overflow id => "schedule overflow at milestone " ++ id.text
  | orderMismatch c => "topological order does not belong to the graph of contract " ++ c.text

/-! ## The forward pass -/

/-- The earliest times of a milestone. -/
structure Early where
  id : MilestoneId
  duration : Duration
  start : Duration
  finish : Duration
deriving DecidableEq

/-- The duration of a milestone of the graph. -/
def Graph.duration (g : Graph) (id : MilestoneId) : Duration :=
  ((g.milestone? id).map Milestone.plannedDuration).getD .zero

/-- When a milestone finishes, as far as is known; nothing known counts as zero. -/
def finishOf (known : List Early) (id : MilestoneId) : Duration :=
  ((known.find? fun e => e.id == id).map Early.finish).getD .zero

/-- When a milestone starts, as far as is known; nothing known counts as zero. -/
def startOf (known : List Early) (id : MilestoneId) : Duration :=
  ((known.find? fun e => e.id == id).map Early.start).getD .zero

/-- Adds the earliest times of the milestones of an order to those known. -/
def forwardPass (g : Graph) : (known : List Early) → List MilestoneId →
    Except ScheduleError (List Early)
  | known, [] => .ok known
  | known, id :: rest =>
    let start := (Duration.maximum? ((g.prerequisites id).map (finishOf known))).getD .zero
    match start.add? (g.duration id) with
    | none => .error (.overflow id)
    | some finish => forwardPass g (known ++ [⟨id, g.duration id, start, finish⟩]) rest

/-- The length of the schedule: the latest earliest finish of a milestone without
dependents. -/
def totalDuration (g : Graph) (early : List Early) : Duration :=
  (Duration.maximum? ((early.filter fun e => (g.dependents e.id).isEmpty).map Early.finish)).getD
    .zero

/-! ## The backward pass -/

/-- The latest times of a milestone, with its earliest times. -/
structure Late where
  early : Early
  start : Duration
  finish : Duration
deriving DecidableEq

/-- When a milestone has to start, as far as is known; nothing known counts as zero. -/
def latestStartOf (known : List Late) (id : MilestoneId) : Duration :=
  ((known.find? fun l => l.early.id == id).map Late.start).getD .zero

/-- The latest times of milestones given in the order of work. -/
def backwardPass (g : Graph) (total : Duration) : List Early → Option (List Late)
  | [] => some []
  | e :: rest => do
    let later ← backwardPass g total rest
    let finish :=
      (Duration.minimum? ((g.dependents e.id).map (latestStartOf later))).getD total
    let start ← finish.sub? e.duration
    some (⟨e, start, finish⟩ :: later)

/-- The timing of a milestone from both passes. -/
def Late.timing? (g : Graph) (early : List Early) (total : Duration) (l : Late) :
    Option Timing := do
  let slack ← l.start.sub? l.early.start
  let next := (Duration.minimum? ((g.dependents l.early.id).map (startOf early))).getD total
  let freeSlack ← next.sub? l.early.finish
  some
    { milestoneId := l.early.id
      duration := l.early.duration
      earliestStart := l.early.start
      earliestFinish := l.early.finish
      latestStart := l.start
      latestFinish := l.finish
      slack := slack
      freeSlack := freeSlack }

/-- The sum of durations, as long as it stays in range. -/
def sumDurations (ds : List Duration) : Option Duration := ds.foldlM Duration.add? .zero

/-! ## The critical chain -/

/-- Walks from a milestone to the first critical prerequisite in the order of work that
finishes when it starts, and on from there.  The walk is given from its end to its start.
No walk without repetition has more steps than there are milestones. -/
def walkBack (g : Graph) (timings : List Timing) : (steps : Nat) → Timing →
    Option (List MilestoneId)
  | 0, _ => none
  | steps + 1, t =>
    let before := g.prerequisites t.milestoneId
    match timings.find? fun p =>
        before.contains p.milestoneId && p.isCritical &&
          p.earliestFinish == t.earliestStart with
    | none => some [t.milestoneId]
    | some p => (walkBack g timings steps p).map (t.milestoneId :: ·)

/-- A chain of critical milestones that ends with the schedule. -/
def criticalChain? (g : Graph) (timings : List Timing) (total : Duration) :
    Option (List MilestoneId) :=
  match timings.find? fun t =>
      t.isCritical && t.earliestFinish == total && (g.dependents t.milestoneId).isEmpty with
  | none => some []
  | some last => (walkBack g timings timings.length last).map List.reverse

/-! ## The timetable -/

/-- The first milestone of an order with a negative duration. -/
def Graph.negative? (g : Graph) (order : List MilestoneId) : Option MilestoneId :=
  order.find? fun id => g.duration id < .zero

/-- The order belongs to the contract of the graph and names as many milestones as it has,
all of them its own. -/
def WorkOrder.fits (o : WorkOrder) (g : Graph) : Bool :=
  o.contractId == g.contractId && o.ids.length == g.size && o.ids.all g.contains

/-- The timetable of a graph along an order of work. -/
def Graph.timetable (g : Graph) (o : WorkOrder) : Outcome ScheduleError Timetable := do
  if !o.fits g then Outcome.refuse (.orderMismatch g.contractId)
  match g.negative? o.ids with
  | some id => Outcome.refuse (.negativeDuration id (g.duration id).seconds)
  | none => pure ()
  let early ← Outcome.ofExcept id (forwardPass g [] o.ids)
  let total := totalDuration g early
  let late ← Outcome.orFault .durationRange (backwardPass g total early)
  let timings ← Outcome.orFault .durationRange (late.mapM (Late.timing? g early total))
  let slackTime ← Outcome.orFault .durationRange (sumDurations (timings.map Timing.slack))
  let chain ← Outcome.orFault .endlessChain (criticalChain? g timings total)
  let length ← Outcome.orFault .durationRange
    (sumDurations (chain.filterMap fun id =>
      (timings.find? fun t => t.milestoneId == id).map Timing.duration))
  if length = total then
    pure
      { contractId := g.contractId
        timings := timings
        total := total
        criticalPathDuration := length
        slackTime := slackTime
        criticalChain := chain }
  else .error (.fault .chainLength)

/-! ## The schedule -/

/-- A graph with its order of work and its timetable. -/
structure Schedule where
  graph : Graph
  order : WorkOrder
  timetable : Timetable
deriving DecidableEq

namespace Schedule

/-- Orders a graph and works out its timetable. -/
def compute (g : Graph) : Outcome ScheduleError Schedule := do
  let order ← Outcome.ofExcept .cycle g.workOrder
  let timetable ← g.timetable order
  pure ⟨g, order, timetable⟩

/-- The earliest planned start of any milestone. -/
def earliestPlannedStart (s : Schedule) : Option Instant :=
  Instant.minimum? (s.graph.milestones.filterMap Milestone.estimatedStart)

end Schedule

end Milestones
