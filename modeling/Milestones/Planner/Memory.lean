import Milestones.Schedule.Timetable

/-!
# Remembered schedules

A planner remembers the schedules it has computed until something is written to their
contract.  Every schedule that is remembered gets a new serial number, which tells it from
an equal one that was computed at another time.

None of the operations makes room or looks at the age of a schedule.  A memory for a number of
schedules, each for some time, loses schedules of its own accord as well.  Which ones and when
depends on how often they are asked for and on the time that passes, and neither is known here.
`Memory.lose` takes away any of them; it may happen between any two operations.

## Main definitions

* `Memory`: the remembered schedules by contract.
* `Memory.get?`, `Memory.insert`, `Memory.forget`, `Memory.clear`: the operations.
* `Memory.lose`: what happens to a memory of its own accord.
-/

namespace Milestones

/-- A remembered schedule. -/
structure Remembered where
  contractId : ContractId
  schedule : Schedule
  serial : Nat
deriving DecidableEq

instance : Identified Remembered .contract := ⟨Remembered.contractId⟩

/-- The remembered schedules.  A memory that is not enabled remembers nothing. -/
structure Memory where
  enabled : Bool
  entries : Table Remembered := .empty
  /-- How many schedules have been remembered so far. -/
  inserted : Nat := 0
deriving DecidableEq

namespace Memory

/-- The longest time for which a schedule may be remembered, in nanoseconds: a thousand
years of 365 days. -/
def longestLifetime : Nat := 31536000000000000000

/-- A new memory for a number of schedules, each for at most the given nanoseconds. -/
def create (capacity : UInt64) (lifetime : Option Nat) : Except Fault Memory :=
  if capacity ≠ 0 ∧ lifetime.any fun n => longestLifetime < n then .error .lifetime
  else .ok { enabled := capacity != 0 }

/-- The remembered schedule of a contract. -/
def get? (m : Memory) (c : ContractId) : Option Schedule := (m.entries.get? c).map Remembered.schedule

/-- The serial number of the remembered schedule of a contract. -/
def serial? (m : Memory) (c : ContractId) : Option Nat := (m.entries.get? c).map Remembered.serial

/-- Remembers a schedule, instead of an older one of the contract. -/
def insert (m : Memory) (c : ContractId) (s : Schedule) : Memory :=
  if m.enabled then
    { m with entries := m.entries.insert ⟨c, s, m.inserted⟩, inserted := m.inserted + 1 }
  else m

/-- Forgets the schedule of a contract. -/
def forget (m : Memory) (c : ContractId) : Memory := { m with entries := m.entries.erase c }

/-- Forgets all schedules. -/
def clear (m : Memory) : Memory := { m with entries := .empty }

/-- Loses the schedules of some contracts, to make room for others or because of their age. -/
def lose (m : Memory) (cs : List ContractId) : Memory :=
  { m with entries := m.entries.filter fun e => !cs.contains e.contractId }

end Memory

end Milestones
