import Milestones.Contract.Milestone

/-!
# Dependencies, progress, and whole contracts

## Main definitions

* `Dependency`: one milestone waits for another, or goes along with it.
* `ProgressUpdate`, `ProgressReading`: progress as asked for, and as recorded.
* `Snapshot`: everything known about one contract.
-/

namespace Milestones

/-- What a dependency means. -/
inductive DependencyKind where
  /-- The prerequisite has to finish before the dependent starts. -/
  | prerequisite
  /-- The two go together: this orders them but does not constrain their timing. -/
  | parallel
deriving DecidableEq, Inhabited

namespace DependencyKind

/-- The kinds with their written names. -/
def names : List (String × DependencyKind) :=
  [("prerequisite", prerequisite), ("parallel", parallel)]

/-- The written name. -/
def name : DependencyKind → String
  | prerequisite => "prerequisite"
  | parallel => "parallel"

/-- The name used in messages. -/
def label : DependencyKind → String
  | prerequisite => "Prerequisite"
  | parallel => "Parallel"

/-- The stronger of two kinds: a prerequisite counts for more than a parallel link. -/
def strongest : DependencyKind → DependencyKind → DependencyKind
  | parallel, parallel => parallel
  | _, _ => prerequisite

end DependencyKind

/-- The record that `milestoneId` depends on `dependsOnId`. -/
structure Dependency where
  id : DependencyId
  milestoneId : MilestoneId
  dependsOnId : MilestoneId
  kind : DependencyKind := .prerequisite
deriving DecidableEq

/-- The milestone is at one of the two ends. -/
def Dependency.touches (e : Dependency) (m : MilestoneId) : Bool :=
  e.milestoneId == m || e.dependsOnId == m

/-- Progress as asked for. -/
structure ProgressUpdate where
  milestoneId : MilestoneId
  percentageComplete : Float
deriving DecidableEq

/-- Progress as recorded at some time. -/
structure ProgressReading where
  milestoneId : MilestoneId
  percentageComplete : Float
  recordedAt : Instant
deriving DecidableEq

/-- Everything known about one contract. -/
structure Snapshot where
  contractId : ContractId
  milestones : List Milestone := []
  dependencies : List Dependency := []
  progressHistory : List ProgressReading := []
deriving DecidableEq

end Milestones
