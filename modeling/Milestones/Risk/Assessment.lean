import Milestones.Report.Completion
import Milestones.Risk.Weights

/-!
# Risk assessment

The assessment sorts the milestones of a schedule by the risk level of their author, scores
them, and lists the plans for open milestones of high risk.  A milestone that is completed
or cancelled bears no risk any more.

## Main definitions

* `RiskAssessment`: the assessment.
* `RiskAssessment.compute`: assesses a schedule.
-/

namespace Milestones

/-- The risk of a milestone. -/
structure MilestoneRisk where
  milestoneId : MilestoneId
  riskLevel : RiskLevel
  score : Float
  slack : Duration
  isCritical : Bool
deriving DecidableEq

/-- The plans for a milestone of high risk; none means that the risk is not covered. -/
structure Contingency where
  milestoneId : MilestoneId
  title : String
  plans : List String
deriving DecidableEq

/-- The risk of a contract. -/
structure RiskAssessment where
  high : List MilestoneId
  medium : List MilestoneId
  low : List MilestoneId
  /-- The highest score first, equal ones in the order of work. -/
  scores : List MilestoneRisk
  /-- The mean score, zero where there are no milestones. -/
  overallScore : Float
  contingencies : List Contingency
deriving DecidableEq

namespace RiskAssessment

/-- The rank of a score among all doubles: infinities at the ends, negative zero below zero,
and what is no number below everything. -/
def scoreRank (x : Float) : Int :=
  let bits := x.toBits.toNat
  if x.isNaN then -(Nat.pow 2 64 : Nat)
  else if bits < Nat.pow 2 63 then bits
  else -(bits - Nat.pow 2 63 : Nat) - 1

/-- Nothing can go wrong with it any more. -/
def isClosed (m : Milestone) : Bool := !m.isOpen

/-- The risk of a milestone of a schedule. -/
def riskOf (s : Schedule) (w : RiskWeights) (m : Milestone) : MilestoneRisk :=
  let timing := s.timetable.timing? m.id
  let slack := (timing.map Timing.slack).getD .zero
  { milestoneId := m.id
    riskLevel := m.riskLevel
    score := if isClosed m then 0 else w.score m.criticalityScore slack
    slack := slack
    isCritical := timing.any Timing.isCritical }

/-- The sum of scores.  The empty sum is negative zero, to which adding changes nothing. -/
def sumScores (risks : List MilestoneRisk) : Float :=
  risks.foldl (fun sum r => sum + r.score) (-0.0)

/-- Assesses a schedule. -/
def compute (s : Schedule) (w : RiskWeights) : Except WeightsError RiskAssessment := do
  w.validate
  let ms := s.order.ids.filterMap s.graph.milestone?
  let atLevel (level : RiskLevel) : List MilestoneId :=
    (ms.filter fun m => m.riskLevel == level).map Milestone.id
  let risks := ms.map (riskOf s w)
  .ok
    { high := atLevel .high
      medium := atLevel .medium
      low := atLevel .low
      scores := risks.mergeSort fun a b => scoreRank b.score ≤ scoreRank a.score
      overallScore := if risks.isEmpty then 0 else sumScores risks / Float.ofNat risks.length
      contingencies :=
        (ms.filter fun m => m.riskLevel == .high && !isClosed m).map fun m =>
          ⟨m.id, m.title, m.contingencyPlans⟩ }

open Datum

/-- Writes an assessment. -/
def toDatum (r : RiskAssessment) : Datum :=
  record
    [("high", list (r.high.map ofId)),
      ("medium", list (r.medium.map ofId)),
      ("low", list (r.low.map ofId)),
      ("scores", list (r.scores.map fun x =>
        record
          [("milestone_id", ofId x.milestoneId),
            ("risk_level", text x.riskLevel.name),
            ("score", float x.score),
            ("slack", ofDuration x.slack),
            ("is_critical", bool x.isCritical)])),
      ("overall_score", float r.overallScore),
      ("contingencies", list (r.contingencies.map fun c =>
        record
          [("milestone_id", ofId c.milestoneId),
            ("title", text c.title),
            ("plans", list (c.plans.map text))]))]

end RiskAssessment

end Milestones
