import Milestones.Report.Overdue

/-!
# How much is done

## Main definitions

* `Milestone.isDone`: completed by status, or by reaching the full hundred.
* `Completion`: counts and rates over the milestones of a contract.
-/

namespace Milestones

/-- Completed by status, or by reaching the full hundred. -/
def Milestone.isDone (m : Milestone) : Bool := m.status == .completed || m.isFullyComplete

/-- Cancelled, and not done before. -/
def Milestone.isDropped (m : Milestone) : Bool := !m.isDone && m.status == .cancelled

/-- Neither done nor dropped. -/
def Milestone.isOpen (m : Milestone) : Bool := !m.isDone && m.status != .cancelled

/-- Counts and rates over the milestones of a contract. -/
structure Completion where
  total : Nat
  completed : Nat
  pending : Nat
  overdue : Nat
  cancelled : Nat
  /-- The completed milestones in per cent, zero where there are none at all. -/
  completionRate : Float
  /-- The mean progress, zero where there are no milestones. -/
  averageCompletion : Float
deriving DecidableEq

namespace Completion

/-- Counts the given milestones. -/
def compute (ms : List Milestone) (r : DueRule) (now : Instant) : Completion :=
  let total := ms.length
  let completed := ms.countP Milestone.isDone
  let sum := ms.foldl (fun sum m => sum + m.percentageComplete) 0
  { total := total
    completed := completed
    pending := ms.countP Milestone.isOpen
    overdue := ms.countP fun m => m.isOpen && r.isOverdue m now
    cancelled := ms.countP Milestone.isDropped
    completionRate := if total = 0 then 0 else Float.ofNat completed / Float.ofNat total * 100
    averageCompletion := if total = 0 then 0 else sum / Float.ofNat total }

open Datum

/-- Writes the counts. -/
def toDatum (c : Completion) : Datum :=
  record
    [("total", int c.total),
      ("completed", int c.completed),
      ("pending", int c.pending),
      ("overdue", int c.overdue),
      ("cancelled", int c.cancelled),
      ("completion_rate", float c.completionRate),
      ("average_completion", float c.averageCompletion)]

end Completion

end Milestones
