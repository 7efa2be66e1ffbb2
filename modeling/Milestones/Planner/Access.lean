import Milestones.RecordId

/-!
# Access to contracts

Any number of readers may hold a contract at the same time, or one writer alone.  Requests
for different contracts never disturb each other.

## Main definitions

* `Access`: who holds what, and which contracts were ever asked for.
* `Access.request`: a holder asks for a contract without waiting.
-/

namespace Milestones

/-- How a contract is held. -/
inductive AccessMode where
  | reading
  | writing
deriving DecidableEq

/-- A contract held by somebody. -/
structure Hold where
  holder : String
  contractId : ContractId
  mode : AccessMode
deriving DecidableEq

/-- Who holds what.  A holder has at most one contract. -/
structure Access where
  holds : List Hold := []
  /-- The contracts that were ever asked for, each once. -/
  seen : List ContractId := []
deriving DecidableEq

namespace Access

/-- A contract could be held in the given way now. -/
def isFree (a : Access) (c : ContractId) (mode : AccessMode) : Bool :=
  a.holds.all fun h => h.contractId != c || (mode == .reading && h.mode == .reading)

/-- Gives up what a holder has. -/
def release (a : Access) (holder : String) : Access :=
  { a with holds := a.holds.filter fun h => h.holder != holder }

/-- Asks for a contract.  If it is granted, it replaces what the holder had; if not, the
holder keeps that. -/
def request (a : Access) (holder : String) (c : ContractId) (mode : AccessMode) : Bool × Access :=
  let seen := if a.seen.contains c then a.seen else a.seen ++ [c]
  if a.isFree c mode then
    (true, { holds := (a.release holder).holds ++ [⟨holder, c, mode⟩], seen := seen })
  else (false, { a with seen := seen })

end Access

end Milestones
