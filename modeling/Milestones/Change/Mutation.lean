import Milestones.Contract.Written

/-!
# Requested changes

A batch asks for changes to one contract, in order.

## Main definitions

* `Mutation`: a single change.
* `Batch`: changes to a contract, with `Batch.touchesSchedule`.
-/

namespace Milestones

/-- A change to a contract. -/
inductive Mutation where
  /-- Moves milestones to one status. -/
  | setStatus (ids : List MilestoneId) (status : Status)
  /-- Records progress. -/
  | setProgress (updates : List ProgressUpdate)
  | createMilestone (m : Milestone)
  | updateMilestone (id : MilestoneId) (edit : MilestoneEdit)
  /-- Removes a milestone and every dependency at it. -/
  | deleteMilestone (id : MilestoneId)
  | addDependency (e : Dependency)
  | removeDependency (id : DependencyId)
deriving DecidableEq

namespace Mutation

/-- The change may alter the order of work or the timetable. -/
def touchesSchedule : Mutation → Bool
  | setStatus .. | setProgress .. => false
  | updateMilestone _ edit => edit.touchesSchedule
  | createMilestone .. | deleteMilestone .. | addDependency .. | removeDependency .. => true

/-- The milestones that the change takes to exist. -/
def referenced : Mutation → List MilestoneId
  | setStatus ids _ => ids
  | setProgress updates => updates.map ProgressUpdate.milestoneId
  | updateMilestone id _ | deleteMilestone id => [id]
  | addDependency e => [e.milestoneId, e.dependsOnId]
  | createMilestone _ | removeDependency _ => []

end Mutation

/-- Changes to one contract, in order. -/
structure Batch where
  contractId : ContractId
  mutations : List Mutation
deriving DecidableEq

namespace Batch

/-- Some change may alter the order of work or the timetable. -/
def touchesSchedule (b : Batch) : Bool := b.mutations.any Mutation.touchesSchedule

/-- The milestones that some change takes to exist. -/
def referenced (b : Batch) : List MilestoneId := b.mutations.flatMap Mutation.referenced

end Batch

/-! ## Written form -/

open Datum

namespace Mutation

/-- Writes a change, with its name in front. -/
def toDatum : Mutation → Datum
  | setStatus ids status =>
    record
      [("op", text "set_status"),
        ("milestone_ids", list (ids.map ofId)),
        ("status", text status.name)]
  | setProgress updates =>
    record
      [("op", text "set_progress"), ("updates", list (updates.map ProgressUpdate.toDatum))]
  | createMilestone m => record [("op", text "create_milestone"), ("milestone", m.toDatum)]
  | updateMilestone id edit =>
    record
      [("op", text "update_milestone"), ("milestone_id", ofId id), ("update", edit.toDatum)]
  | deleteMilestone id => record [("op", text "delete_milestone"), ("milestone_id", ofId id)]
  | addDependency e => record [("op", text "add_dependency"), ("dependency", e.toDatum)]
  | removeDependency id => record [("op", text "remove_dependency"), ("dependency_id", ofId id)]

/-- Reads a change, which is a record tagged with its name. -/
def ofDatum? (d : Datum) : Option Mutation := do
  let (op, d) ← d.untag? "op"
  match op with
  | "set_status" =>
    let fs ← d.fields? .tagged ["milestone_ids", "status"]
    let ids ← fs.required? "milestone_ids" (list? id?)
    let status ← fs.required? "status" (name? .tagged Status.names)
    some (setStatus ids status)
  | "set_progress" =>
    let fs ← d.fields? .tagged ["updates"]
    (fs.required? "updates" (list? ProgressUpdate.ofDatum?)).map setProgress
  | "create_milestone" =>
    let fs ← d.fields? .tagged ["milestone"]
    (fs.required? "milestone" (Milestone.ofDatum? .tagged)).map createMilestone
  | "update_milestone" =>
    let fs ← d.fields? .tagged ["milestone_id", "update"]
    let id ← fs.required? "milestone_id" id?
    let edit ← fs.required? "update" (MilestoneEdit.ofDatum? .tagged)
    some (updateMilestone id edit)
  | "delete_milestone" =>
    let fs ← d.fields? .tagged ["milestone_id"]
    (fs.required? "milestone_id" id?).map deleteMilestone
  | "add_dependency" =>
    let fs ← d.fields? .tagged ["dependency"]
    (fs.required? "dependency" (Dependency.ofDatum? .tagged)).map addDependency
  | "remove_dependency" =>
    let fs ← d.fields? .tagged ["dependency_id"]
    (fs.required? "dependency_id" id?).map removeDependency
  | _ => none

end Mutation

namespace Batch

/-- Writes a batch. -/
def toDatum (b : Batch) : Datum :=
  record
    [("contract_id", ofId b.contractId), ("mutations", list (b.mutations.map Mutation.toDatum))]

/-- Reads a batch. -/
def ofDatum? (d : Datum) : Option Batch := do
  let fs ← d.fields? .strict ["contract_id", "mutations"]
  some
    { contractId := ← fs.required? "contract_id" id?
      mutations := ← fs.required? "mutations" (list? Mutation.ofDatum?) }

end Batch

end Milestones
