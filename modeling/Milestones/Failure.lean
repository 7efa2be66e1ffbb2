/-!
# Refusals and faults

A computation that does not succeed either refuses its input with an error that the caller
can handle, or stops with a fault: a value left the range of its type, or an internal check
failed.

## Main definitions

* `Fault`: what can stop a computation.
* `Failure ε`: an error of type `ε` or a fault.
-/

namespace Milestones

/-- What stops a computation. -/
inductive Fault where
  /-- A sum or difference of durations left their range. -/
  | durationRange
  /-- A date left the calendar. -/
  | dateRange
  /-- The critical chain does not add up to the length of the schedule. -/
  | chainLength
  /-- The search for a critical chain goes round in circles. -/
  | endlessChain
  /-- Entries cannot be kept for so long. -/
  | lifetime
deriving DecidableEq

/-- Why a computation does not succeed. -/
inductive Failure (ε : Type) where
  | refused (e : ε)
  | fault (f : Fault)
deriving DecidableEq

namespace Failure

/-- The same failure with another kind of error. -/
def map {ε ε' : Type} (f : ε → ε') : Failure ε → Failure ε'
  | refused e => refused (f e)
  | fault x => fault x

end Failure

/-- An answer, an error or a fault. -/
abbrev Outcome (ε α : Type) := Except (Failure ε) α

namespace Outcome

/-- Refuses with an error. -/
def refuse {ε α : Type} (e : ε) : Outcome ε α := .error (.refused e)

/-- A result with its errors seen as errors of another kind. -/
def ofExcept {ε ε' α : Type} (f : ε → ε') (x : Except ε α) : Outcome ε' α :=
  x.mapError fun e => .refused (f e)

/-- A value that is missing only where a fault happened. -/
def orFault {ε α : Type} (f : Fault) (x : Option α) : Outcome ε α :=
  match x with
  | none => .error (.fault f)
  | some a => .ok a

end Outcome

end Milestones
