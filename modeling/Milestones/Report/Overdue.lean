import Milestones.Contract.Written
import Milestones.Schedule.Timetable

/-!
# What is overdue

A milestone is due at its planned end.  Without one it is due when it has to finish for the
contract to be on time, provided the schedule is anchored to a date.

## Main definitions

* `DueRule`: where due dates come from.
* `DueRule.due?`, `DueRule.isOverdue`: the due date of a milestone, and whether it has passed.
* `DelayReport`: the overdue milestones, the most delayed first.
-/

namespace Milestones

/-! ## Due dates -/

/-- Where a due date comes from. -/
inductive DueSource where
  | planned
  | latestFinish
deriving DecidableEq

/-- The written name. -/
def DueSource.name : DueSource → String
  | planned => "planned"
  | latestFinish => "latest_finish"

/-- How due dates are found: from planned ends alone, or also from a timetable whose start
has a date. -/
structure DueRule where
  timetable : Option Timetable := none
  anchor : Option Instant := none

namespace DueRule

/-- Planned ends alone. -/
def plannedOnly : DueRule := {}

/-- Planned ends, then the timetable. -/
def ofTimetable (t : Timetable) (anchor : Option Instant) : DueRule := ⟨some t, anchor⟩

/-- When a milestone is due and where the date comes from. -/
def due? (r : DueRule) (m : Milestone) : Option (Instant × DueSource) :=
  match m.estimatedEnd with
  | some t => some (t, .planned)
  | none => do
    let anchor ← r.anchor
    let timetable ← r.timetable
    let timing ← timetable.timing? m.id
    let due ← anchor.add? timing.latestFinish
    some (due, .latestFinish)

/-- The due date has passed and the milestone is not finished. -/
def isOverdue (r : DueRule) (m : Milestone) (now : Instant) : Bool :=
  if m.status.isTerminal || m.isFullyComplete then false
  else (r.due? m).any fun (due, _) => due < now

end DueRule

/-! ## Delays -/

/-- An overdue milestone. -/
structure Delay where
  milestoneId : MilestoneId
  title : String
  due : Instant
  source : DueSource
  delay : Duration
  percentageComplete : Float
  /-- The delay moves the end of the contract. -/
  isCritical : Bool
deriving DecidableEq

/-- The overdue milestones at some time. -/
structure DelayReport where
  asOf : Instant
  delayed : List Delay
deriving DecidableEq

namespace DelayReport

/-- The delay of a milestone that is overdue. -/
def delay? (r : DueRule) (t : Option Timetable) (now : Instant) (m : Milestone) : Option Delay :=
  if r.isOverdue m now then
    (r.due? m).map fun (due, source) =>
      { milestoneId := m.id
        title := m.title
        due := due
        source := source
        delay := now.since due
        percentageComplete := m.percentageComplete
        isCritical := t.any fun t => t.isCritical m.id }
  else none

/-- The longer delay first, then the lower identifier. -/
def ranksBefore (a b : Delay) : Bool :=
  b.delay < a.delay || (a.delay == b.delay && a.milestoneId ≤ b.milestoneId)

/-- The overdue milestones among those given. -/
def compute (ms : List Milestone) (r : DueRule) (t : Option Timetable) (now : Instant) :
    DelayReport :=
  ⟨now, (ms.filterMap (delay? r t now)).mergeSort ranksBefore⟩

/-- The largest delay. -/
def maxDelay? (r : DelayReport) : Option Duration := r.delayed.head?.map Delay.delay

end DelayReport

/-! ## Written form -/

open Datum

/-- Writes a delay. -/
def Delay.toDatum (d : Delay) : Datum :=
  record
    [("milestone_id", ofId d.milestoneId),
      ("title", text d.title),
      ("due", ofInstant d.due),
      ("due_source", text d.source.name),
      ("delay", ofDuration d.delay),
      ("percentage_complete", float d.percentageComplete),
      ("is_critical", bool d.isCritical)]

/-- Writes a report. -/
def DelayReport.toDatum (r : DelayReport) : Datum :=
  record [("as_of", ofInstant r.asOf), ("delayed", list (r.delayed.map Delay.toDatum))]

end Milestones
