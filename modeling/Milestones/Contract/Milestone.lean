import Milestones.Contract.Status
import Milestones.RecordId
import Milestones.Time.Instant

/-!
# Milestones

A milestone is one step of a contract: what it is called, how it is ordered and weighed,
when it is planned and when it happened, and how far it has come.

## Main definitions

* `Milestone`: the record.
* `Milestone.plannedDuration`: the duration that scheduling uses.
* `MilestoneEdit`: a change to some of the authored fields.
-/

namespace Milestones

/-- How risky the author holds a milestone to be. -/
inductive RiskLevel where
  | low
  | medium
  | high
deriving DecidableEq, Inhabited

namespace RiskLevel

/-- The levels with their written names. -/
def names : List (String × RiskLevel) := [("low", low), ("medium", medium), ("high", high)]

/-- The written name. -/
def name : RiskLevel → String
  | low => "low"
  | medium => "medium"
  | high => "high"

end RiskLevel

/-- One step of a contract. -/
structure Milestone where
  id : MilestoneId
  contractId : ContractId
  title : String
  description : String := ""
  /-- The author's hint for the order, used to break ties. -/
  sequenceNumber : Int32 := 0
  /-- Milestones that the author associates with this one.  For information only: what
  depends on what is said by dependency records. -/
  dependencies : List MilestoneId := []
  category : Option String := none
  priority : Int32 := 0
  riskLevel : RiskLevel := .low
  /-- The author's weight, from 0 to 100. -/
  criticalityScore : UInt8 := 0
  status : Status := .pending
  /-- Whether the last stored computation found the milestone critical. -/
  criticalPath : Bool := false
  estimatedStart : Option Instant := none
  estimatedEnd : Option Instant := none
  actualStart : Option Instant := none
  actualEnd : Option Instant := none
  estimatedDuration : Option Duration := none
  actualDuration : Option Duration := none
  /-- Progress, from 0 to 100. -/
  percentageComplete : Float := 0
  contingencyPlans : List String := []
deriving DecidableEq

/-- Limits a weight to 100. -/
def limitScore (score : UInt8) : UInt8 := if 100 < score then 100 else score

/-- Limits a progress value to the range from 0 to 100.  NaN stays what it is. -/
def limitProgress (x : Float) : Float := if x < 0 then 0 else if 100 < x then 100 else x

namespace Milestone

/-- The duration used for scheduling: a milestone without one is a gate that takes no time. -/
def plannedDuration (m : Milestone) : Duration := m.estimatedDuration.getD .zero

/-- Progress has reached the full hundred. -/
def isFullyComplete (m : Milestone) : Bool := 100 ≤ m.percentageComplete

/-- Sets the planned duration. -/
def withDuration (m : Milestone) (d : Duration) : Milestone := { m with estimatedDuration := some d }

/-- Sets the planned start and end. -/
def withWindow (m : Milestone) (start finish : Instant) : Milestone :=
  { m with estimatedStart := some start, estimatedEnd := some finish }

/-- Sets the planned end. -/
def withDue (m : Milestone) (finish : Instant) : Milestone := { m with estimatedEnd := some finish }

/-- Sets risk level and weight. -/
def withRisk (m : Milestone) (level : RiskLevel) (score : UInt8) : Milestone :=
  { m with riskLevel := level, criticalityScore := limitScore score }

/-- Sets the status without asking whether the change is allowed. -/
def withStatus (m : Milestone) (status : Status) : Milestone := { m with status := status }

/-- Sets the progress, limited to the range from 0 to 100. -/
def withProgress (m : Milestone) (x : Float) : Milestone :=
  { m with percentageComplete := limitProgress x }

/-- Adds a contingency plan. -/
def withContingency (m : Milestone) (plan : String) : Milestone :=
  { m with contingencyPlans := m.contingencyPlans ++ [plan] }

/-- Sets the category. -/
def withCategory (m : Milestone) (category : String) : Milestone :=
  { m with category := some category }

end Milestone

/-! ## Edits -/

/-- A change to authored fields; a field that is not given stays as it is.  Status and
progress have their own ways to change. -/
structure MilestoneEdit where
  title : Option String := none
  description : Option String := none
  sequenceNumber : Option Int32 := none
  category : Option String := none
  priority : Option Int32 := none
  riskLevel : Option RiskLevel := none
  criticalityScore : Option UInt8 := none
  estimatedStart : Option Instant := none
  estimatedEnd : Option Instant := none
  estimatedDuration : Option Duration := none
  contingencyPlans : Option (List String) := none
deriving DecidableEq

namespace MilestoneEdit

/-- The milestone with the given fields changed. -/
def apply (e : MilestoneEdit) (m : Milestone) : Milestone :=
  { m with
    title := e.title.getD m.title
    description := e.description.getD m.description
    sequenceNumber := e.sequenceNumber.getD m.sequenceNumber
    category := e.category.or m.category
    priority := e.priority.getD m.priority
    riskLevel := e.riskLevel.getD m.riskLevel
    criticalityScore := (e.criticalityScore.map limitScore).getD m.criticalityScore
    estimatedStart := e.estimatedStart.or m.estimatedStart
    estimatedEnd := e.estimatedEnd.or m.estimatedEnd
    estimatedDuration := e.estimatedDuration.or m.estimatedDuration
    contingencyPlans := e.contingencyPlans.getD m.contingencyPlans }

/-- The edit may change the order or the timing of the schedule. -/
def touchesSchedule (e : MilestoneEdit) : Bool :=
  e.sequenceNumber.isSome || e.estimatedDuration.isSome || e.estimatedStart.isSome

end MilestoneEdit

end Milestones
