import Milestones.Contract.Written
import Milestones.Schedule.Timetable

/-!
# Timelines

A timeline lays a schedule out in the order of work.  Where the start of the schedule has a
date, the anchor, offsets become dates, as far as the calendar goes.

## Main definitions

* `Timing.at?`: the dates of a milestone.
* `Timeline`: the schedule with its anchor, row by row.
-/

namespace Milestones

/-- The offsets of a milestone as dates. -/
structure Window where
  earliestStart : Instant
  earliestFinish : Instant
  latestStart : Instant
  latestFinish : Instant
deriving DecidableEq

/-- The dates of a milestone, if the calendar reaches all of them. -/
def Timing.at? (t : Timing) (anchor : Instant) : Option Window := do
  some
    { earliestStart := ← anchor.add? t.earliestStart
      earliestFinish := ← anchor.add? t.earliestFinish
      latestStart := ← anchor.add? t.latestStart
      latestFinish := ← anchor.add? t.latestFinish }

/-- One row of a timeline. -/
structure TimelineEntry where
  milestoneId : MilestoneId
  title : String
  sequenceNumber : Int32
  timing : Timing
  window : Option Window
  /-- The milestones that go along with this one. -/
  parallelWith : List MilestoneId
  percentageComplete : Float
deriving DecidableEq

/-- A schedule in the order of work. -/
structure Timeline where
  contractId : ContractId
  anchor : Option Instant
  total : Duration
  criticalPathDuration : Duration
  slackTime : Duration
  /-- The anchor plus the length of the schedule, if the calendar reaches it. -/
  projectedEnd : Option Instant
  criticalChain : List MilestoneId
  entries : List TimelineEntry
deriving DecidableEq

/-- The start of a schedule: a configured date, or else the earliest planned start. -/
def Schedule.anchor (s : Schedule) (configured : Option Instant) : Option Instant :=
  configured.or s.earliestPlannedStart

namespace Timeline

/-- The row of a milestone. -/
def row? (s : Schedule) (anchor : Option Instant) (t : Timing) : Option TimelineEntry :=
  (s.graph.milestone? t.milestoneId).map fun m =>
    { milestoneId := m.id
      title := m.title
      sequenceNumber := m.sequenceNumber
      timing := t
      window := anchor.bind t.at?
      parallelWith := s.graph.parallelGroup m.id
      percentageComplete := m.percentageComplete }

/-- Lays a schedule out. -/
def ofSchedule (s : Schedule) (anchor : Option Instant) : Timeline :=
  { contractId := s.graph.contractId
    anchor := anchor
    total := s.timetable.total
    criticalPathDuration := s.timetable.criticalPathDuration
    slackTime := s.timetable.slackTime
    projectedEnd := anchor.bind fun a => a.add? s.timetable.total
    criticalChain := s.timetable.criticalChain
    entries := s.timetable.timings.filterMap (row? s anchor) }

end Timeline

/-! ## Written form -/

open Datum

/-- Writes a timing. -/
def Timing.toDatum (t : Timing) : Datum :=
  record
    [("milestone_id", ofId t.milestoneId),
      ("duration", ofDuration t.duration),
      ("earliest_start", ofDuration t.earliestStart),
      ("earliest_finish", ofDuration t.earliestFinish),
      ("latest_start", ofDuration t.latestStart),
      ("latest_finish", ofDuration t.latestFinish),
      ("slack", ofDuration t.slack),
      ("free_slack", ofDuration t.freeSlack),
      ("is_critical", bool t.isCritical)]

/-- Writes the dates of a milestone. -/
def Window.toDatum (w : Window) : Datum :=
  record
    [("earliest_start", ofInstant w.earliestStart),
      ("earliest_finish", ofInstant w.earliestFinish),
      ("latest_start", ofInstant w.latestStart),
      ("latest_finish", ofInstant w.latestFinish)]

/-- Writes a row. -/
def TimelineEntry.toDatum (e : TimelineEntry) : Datum :=
  record
    [("milestone_id", ofId e.milestoneId),
      ("title", text e.title),
      ("sequence_number", int e.sequenceNumber.toInt),
      ("timing", e.timing.toDatum),
      ("window", ofOption Window.toDatum e.window),
      ("parallel_with", list (e.parallelWith.map ofId)),
      ("percentage_complete", float e.percentageComplete)]

/-- Writes a timeline. -/
def Timeline.toDatum (t : Timeline) : Datum :=
  record
    [("contract_id", ofId t.contractId),
      ("anchor", ofOption ofInstant t.anchor),
      ("total_duration", ofDuration t.total),
      ("critical_path_duration", ofDuration t.criticalPathDuration),
      ("slack_time", ofDuration t.slackTime),
      ("projected_end", ofOption ofInstant t.projectedEnd),
      ("critical_chain", list (t.criticalChain.map ofId)),
      ("entries", list (t.entries.map TimelineEntry.toDatum))]

end Milestones
