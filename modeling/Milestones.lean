import Milestones.Main
import Milestones.Planner.Access
import Milestones.Proofs.Graph.Links
import Milestones.Proofs.Graph.Order
import Milestones.Proofs.Graph.Cycles
import Milestones.Proofs.Time.Duration
import Milestones.Proofs.Schedule.Passes
import Milestones.Proofs.Schedule.Timetable
import Milestones.Proofs.Schedule.Slack
import Milestones.Proofs.Schedule.CriticalChain
import Milestones.Proofs.Change.Commit
import Milestones.Proofs.Change.WellFormed
import Milestones.Proofs.Planner.Integrity
import Milestones.Proofs.Planner.Frame
import Milestones.Proofs.Planner.Ownership
import Milestones.Proofs.Schedule.AnyOrder
import Milestones.Proofs.Schedule.Delay
import Milestones.Proofs.Change.Frame
import Milestones.Proofs.Planner.Requests
import Milestones.Proofs.Planner.Oblivious
import Milestones.Proofs.Planner.Arrangement
import Milestones.Proofs.Planner.Memory
import Milestones.Proofs.Planner.Access
import Milestones.Proofs.Planner.Faults
import Milestones.Proofs.Schedule.Faults
import Milestones.Proofs.Progress.Trend
import Milestones.Proofs.Change.Dossier
import Milestones.Proofs.Planner.Course
import Milestones.Proofs.Planner.Lifecycle
import Milestones.Proofs.Planner.Progress
import Milestones.Proofs.Change.Notes
import Milestones.Proofs.Planner.Splitting
import Milestones.Proofs.Graph.Listing
import Milestones.Proofs.Planner.Import
import Milestones.Proofs.Schedule.Outline
import Milestones.Proofs.Planner.Rescheduling
import Milestones.Proofs.Planner.Marks
import Milestones.Proofs.Graph.Extension
import Milestones.Proofs.Change.Admission
import Milestones.Proofs.Planner.Joining
import Milestones.Proofs.CommandLine.CycleText
import Milestones.Proofs.CommandLine.ExitCodes
import Milestones.Proofs.Text.Digits
import Milestones.Proofs.Time.Instant
import Milestones.Proofs.Time.Calendar
import Milestones.Proofs.Time.Text
import Milestones.Proofs.RecordId
import Milestones.Proofs.Datum
import Milestones.Proofs.Datum.Json
import Milestones.Proofs.Contract.Written
import Milestones.Proofs.Change.Written
import Milestones.Proofs.Planner.Written
import Milestones.Proofs.Schedule.FreeSlack
import Milestones.Proofs.Schedule.Constraints
import Milestones.Proofs.Schedule.LongestChains
import Milestones.Proofs.Graph.Sketch
import Milestones.Proofs.Planner.Syncing
import Milestones.Proofs.Progress.Span
import Milestones.Proofs.Progress.Buckets
import Milestones.Proofs.Schedule.Timeline
import Milestones.Proofs.Report.Delays
import Milestones.Proofs.Risk.ScoreOrder
import Milestones.Proofs.Risk.Assessment
import Milestones.Proofs.Schedule.Groups
import Milestones.Proofs.Change.Tally
import Milestones.Proofs.Planner.Readings
import Milestones.Proofs.Store.Sequence
