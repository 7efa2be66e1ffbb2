import Milestones.Change.Mutation
import Milestones.Proofs.Contract.Written

/-!
# Changes that are read back

A change is written with its name in front of its parts, and read by taking the name off.

## Main definitions

* `Mutation.toWholeSeconds`, `Batch.toWholeSeconds`: with durations cut to whole seconds.
* `Mutation.IsFinite`, `Batch.IsFinite`: all progress is finite.

## Main statements

* `Mutation.readsBack`, `Batch.readsBack`.
-/

namespace Milestones

open Datum

namespace Mutation

/-- The change with the durations in it cut to whole seconds. -/
def toWholeSeconds : Mutation → Mutation
  | createMilestone m => createMilestone m.toWholeSeconds
  | updateMilestone id edit => updateMilestone id edit.toWholeSeconds
  | x => x

/-- All progress in the change is finite. -/
def IsFinite : Mutation → Prop
  | setProgress updates => ∀ u ∈ updates, u.IsFinite
  | createMilestone m => m.IsFinite
  | _ => True

theorem readsBack {x : Mutation} (hx : x.IsFinite) :
    ReadsBack toDatum ofDatum? x x.toWholeSeconds where
  read_eq := by
    cases x
    -- whatever the change, its name is taken off first
    all_goals
      rw [toDatum, ofDatum?, untag?_record rfl]
      simp only [Option.bind_eq_bind, Option.bind_some]
      refine fields?_record_bind (by decide) rfl ?_
    case setStatus ids status =>
      refine Fields.required?_bind (.list fun id _ => id.readsBack) rfl ?_
      refine Fields.required?_bind (status.readsBack .tagged) rfl ?_
      rfl
    case setProgress updates =>
      exact Fields.required?_map (.list fun u hu => ProgressUpdate.readsBack (hx u hu)) rfl
    case createMilestone m => exact Fields.required?_map (Milestone.readsBack .tagged hx) rfl
    case updateMilestone id edit =>
      refine Fields.required?_bind id.readsBack rfl ?_
      refine Fields.required?_bind (edit.readsBack .tagged) rfl ?_
      rfl
    case deleteMilestone id => exact Fields.required?_map id.readsBack rfl
    case addDependency e => exact Fields.required?_map (e.readsBack .tagged) rfl
    case removeDependency id => exact Fields.required?_map id.readsBack rfl
  write_eq := by
    cases x with
    | createMilestone m =>
      rw [toDatum, toWholeSeconds, toDatum, (Milestone.readsBack .tagged hx).write_eq]
    | updateMilestone id edit =>
      rw [toDatum, toWholeSeconds, toDatum, (edit.readsBack .tagged).write_eq]
    | _ => rfl

end Mutation

namespace Batch

/-- The batch with the durations in it cut to whole seconds. -/
def toWholeSeconds (b : Batch) : Batch :=
  { b with mutations := b.mutations.map Mutation.toWholeSeconds }

/-- All progress in the batch is finite. -/
def IsFinite (b : Batch) : Prop := ∀ x ∈ b.mutations, x.IsFinite

theorem readsBack {b : Batch} (hb : b.IsFinite) : ReadsBack toDatum ofDatum? b b.toWholeSeconds := by
  have hmutations := ReadsBack.list_map fun x hx => Mutation.readsBack (hb x hx)
  constructor
  · refine fields?_record_bind (by decide) rfl ?_
    refine Fields.required?_bind b.contractId.readsBack rfl ?_
    refine Fields.required?_bind hmutations rfl ?_
    rfl
  · rw [toDatum, toDatum, toWholeSeconds]
    simp only [hmutations.write_eq]

end Batch

end Milestones
