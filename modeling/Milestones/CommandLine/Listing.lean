import Milestones.Planner.Basic

/-!
# Answers as plain text

Every answer of the command line has a plain form, with columns padded by the number of
characters.

## Main definitions

* `Timeline.listing`, `Completion.listing`, ...: the plain forms.
-/

namespace Milestones

namespace CommandLine

/-- The text filled up on the left. -/
def alignRight (width : Nat) (s : String) : String := String.ofList (padStart width ' ' s.toList)

/-- The text filled up on the right. -/
def alignLeft (width : Nat) (s : String) : String := String.ofList (padEnd width ' ' s.toList)

/-- Lines, with a break between two. -/
def joinLines (lines : List String) : String := "\n".intercalate lines

/-- Marks what is critical. -/
def mark (isCritical : Bool) : String := if isCritical then "*" else " "

end CommandLine

open CommandLine

/-- An order of work, one milestone a line. -/
def orderListing (title : MilestoneId → String) (ids : List MilestoneId) : String :=
  joinLines (ids.zipIdx.map fun (id, i) =>
    alignRight 3 (toString (i + 1)) ++ ". " ++ id.text ++ " " ++ title id)

/-- A row of a timeline. -/
def TimelineEntry.listing (e : TimelineEntry) : String :=
  let hours (d : Duration) : String := alignRight 5 (toString d.hours) ++ "h"
  let window :=
    match e.window with
    | none => ""
    | some w => "  " ++ w.earliestStart.displayText ++ " .. " ++ w.earliestFinish.displayText
  mark e.timing.isCritical ++ " " ++ alignLeft 30 e.title ++ " ES " ++
    hours e.timing.earliestStart ++ " EF " ++ hours e.timing.earliestFinish ++ " slack " ++
    hours e.timing.slack ++ window

/-- A timeline: the totals, then its rows. -/
def Timeline.listing (t : Timeline) : String :=
  let hours (d : Duration) : String := toString d.hours ++ "h"
  let totals :=
    "total " ++ hours t.total ++ ", critical path " ++ hours t.criticalPathDuration ++
      ", slack " ++ hours t.slackTime
  joinLines (totals :: t.entries.map TimelineEntry.listing)

/-- The counts on one line, the rates on the next. -/
def Completion.listing (c : Completion) : String :=
  "total " ++ toString c.total ++ " completed " ++ toString c.completed ++ " pending " ++
    toString c.pending ++ " overdue " ++ toString c.overdue ++ " cancelled " ++
    toString c.cancelled ++ "\ncompletion " ++ fixedNumber 1 c.completionRate ++
    "% average progress " ++ fixedNumber 1 c.averageCompletion ++ "%"

/-- The overall score, then the plans for open milestones of high risk. -/
def RiskAssessment.listing (r : RiskAssessment) : String :=
  let head :=
    "overall " ++ fixedNumber 1 r.overallScore ++ " (high " ++ toString r.high.length ++
      " medium " ++ toString r.medium.length ++ " low " ++ toString r.low.length ++ ")"
  joinLines (head :: r.contingencies.map fun c =>
    "! " ++ c.title ++ ": " ++
      if c.plans.isEmpty then "no contingency plan" else "; ".intercalate c.plans)

/-- The overdue milestones, one a line. -/
def DelayReport.listing (r : DelayReport) : String :=
  if r.delayed.isEmpty then "nothing overdue"
  else joinLines (r.delayed.map fun d =>
    mark d.isCritical ++ alignLeft 30 d.title ++ " " ++ alignRight 4 (toString d.delay.days) ++
      "d late (" ++ fixedNumber 0 d.percentageComplete ++ "% done)")

/-- The buckets of a trend, one a line. -/
def Trend.listing (t : Trend) : String :=
  if t.points.isEmpty then "no progress recorded"
  else joinLines (t.points.map fun p =>
    p.periodStart.date.text ++ "  " ++ alignRight 5 (fixedNumber 1 p.completionRate) ++
      "% complete  " ++ alignRight 5 (fixedNumber 1 p.averageProgress) ++ "% avg  " ++
      toString p.updates ++ " update(s)")

/-- The milestones on cycles, and how many wait behind them. -/
def CycleReport.listing (title : MilestoneId → String) (r : CycleReport) : String :=
  joinLines
    (("dependency cycle involving " ++ toString r.members.length ++ " milestone(s):") ::
      r.members.map (fun id => "  " ++ id.text ++ " " ++ title id) ++
      if r.blocked.isEmpty then []
      else ["blocked behind the cycle: " ++ toString r.blocked.length])

end Milestones
