/-!
# The life of a milestone

Work reaches completion only by being in progress.  A completed or cancelled milestone
never changes its status again.

## Main definitions

* `Status`: where a milestone stands.
* `Status.next`: the statuses one step away.
* `Status.move`: a checked change of status.
-/

namespace Milestones

/-- Where a milestone stands. -/
inductive Status where
  /-- Not started. -/
  | pending
  /-- Work is under way. -/
  | inProgress
  /-- Done. -/
  | completed
  /-- Waiting for something outside the schedule. -/
  | blocked
  /-- Given up. -/
  | cancelled
deriving DecidableEq, Inhabited

/-- A change of status that the life of a milestone does not allow. -/
structure IllegalTransition where
  source : Status
  target : Status
deriving DecidableEq

namespace Status

/-- The statuses with their written names. -/
def names : List (String × Status) :=
  [("pending", pending), ("in_progress", inProgress), ("completed", completed),
    ("blocked", blocked), ("cancelled", cancelled)]

/-- The written name. -/
def name : Status → String
  | pending => "pending"
  | inProgress => "in_progress"
  | completed => "completed"
  | blocked => "blocked"
  | cancelled => "cancelled"

/-- The name used in messages. -/
def label : Status → String
  | pending => "Pending"
  | inProgress => "InProgress"
  | completed => "Completed"
  | blocked => "Blocked"
  | cancelled => "Cancelled"

/-- A terminal status is final and takes no more progress. -/
def isTerminal : Status → Bool
  | completed | cancelled => true
  | _ => false

/-- The statuses one step away. -/
def next : Status → List Status
  | pending => [inProgress, blocked, cancelled]
  | inProgress => [completed, blocked, cancelled]
  | blocked => [pending, inProgress, cancelled]
  | completed | cancelled => []

/-- Checks a change of status.  Keeping the status is always fine. -/
def move (source target : Status) : Except IllegalTransition Unit :=
  if source = target ∨ target ∈ source.next then .ok () else .error ⟨source, target⟩

end Status

/-- The message of a refused change of status. -/
def IllegalTransition.message (e : IllegalTransition) : String :=
  "illegal status transition " ++ e.source.label ++ " -> " ++ e.target.label

end Milestones
