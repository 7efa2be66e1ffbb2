import Milestones.Contract.Snapshot
import Milestones.Hashing

/-!
# The store

The store keeps the records of every contract: its milestones, its dependencies, and the
journal of progress readings.  A transaction is a list of writes to one contract.  The
writes see each other in order, and either all of them take effect or none.

The contracts are kept in a hash map.  A milestone that is looked for in all of them may stand in
several, and which one is found depends on how the map is arranged.

## Main definitions

* `ContractRecords`: what is stored for one contract.
* `Write`: a single write, with `ContractRecords.apply` for its effect.
* `Store.apply`: a transaction.
* `Store.seed`, `Store.snapshot`: whole contracts in and out, unchecked.
-/

namespace Milestones

instance : Identified Milestone .milestone := ⟨Milestone.id⟩
instance : Identified Dependency .dependency := ⟨Dependency.id⟩

/-! ## Records of one contract -/

/-- What is stored for one contract. -/
structure ContractRecords where
  contractId : ContractId
  milestones : Table Milestone := .empty
  dependencies : Table Dependency := .empty
  /-- The journal of progress readings, oldest first. -/
  history : List ProgressReading := []
deriving DecidableEq

instance : Identified ContractRecords .contract := ⟨ContractRecords.contractId⟩

/-- Why the store refuses. -/
inductive StoreError where
  | unavailable
  | milestoneNotFound (id : MilestoneId)
  | dependencyNotFound (id : DependencyId)
  | duplicateMilestone (id : MilestoneId)
  | duplicateDependency (id : DependencyId)
  | contractMismatch (expected actual : ContractId)
deriving DecidableEq

namespace StoreError

/-- The message of a refusal. -/
def message : StoreError → String
  | unavailable => "store unavailable: memory store is offline"
  | milestoneNotFound id => "milestone not found: " ++ id.text
  | dependencyNotFound id => "dependency not found: " ++ id.text
  | duplicateMilestone id => "duplicate record: milestone " ++ id.text
  | duplicateDependency id => "duplicate record: dependency " ++ id.text
  | contractMismatch expected actual =>
    "record belongs to contract " ++ actual.text ++ ", transaction is scoped to " ++ expected.text

/-- The same request may succeed later. -/
def isTransient : StoreError → Bool
  | unavailable => true
  | _ => false

end StoreError

/-- A single write to the records of a contract. -/
inductive Write where
  | insertMilestone (m : Milestone)
  | replaceMilestone (m : Milestone)
  /-- Removes the milestone alone and leaves dependencies to the caller. -/
  | deleteMilestone (id : MilestoneId)
  | insertDependency (e : Dependency)
  | deleteDependency (id : DependencyId)
  | setStatus (ids : List MilestoneId) (status : Status)
  /-- Sets the progress of a milestone and enters it in the journal. -/
  | setProgress (update : ProgressUpdate) (recordedAt : Instant)
deriving DecidableEq

namespace ContractRecords

/-- Changes a stored milestone; the change keeps its identifier. -/
def changeMilestone (r : ContractRecords) (id : MilestoneId) (change : Milestone → Milestone) :
    Except StoreError ContractRecords :=
  match r.milestones.get? id with
  | none => .error (.milestoneNotFound id)
  | some m => .ok { r with milestones := r.milestones.insert (change m) }

/-- The effect of one write. -/
def apply (r : ContractRecords) : Write → Except StoreError ContractRecords
  | .insertMilestone m =>
    if m.contractId ≠ r.contractId then .error (.contractMismatch r.contractId m.contractId)
    else if r.milestones.contains m.id then .error (.duplicateMilestone m.id)
    else .ok { r with milestones := r.milestones.insert m }
  | .replaceMilestone m =>
    if m.contractId ≠ r.contractId then .error (.contractMismatch r.contractId m.contractId)
    else r.changeMilestone m.id fun _ => m
  | .deleteMilestone id =>
    if r.milestones.contains id then .ok { r with milestones := r.milestones.erase id }
    else .error (.milestoneNotFound id)
  | .insertDependency e =>
    if r.dependencies.contains e.id then .error (.duplicateDependency e.id)
    else .ok { r with dependencies := r.dependencies.insert e }
  | .deleteDependency id =>
    if r.dependencies.contains id then .ok { r with dependencies := r.dependencies.erase id }
    else .error (.dependencyNotFound id)
  | .setStatus ids status =>
    ids.foldlM (fun r id => r.changeMilestone id fun m => { m with status := status }) r
  | .setProgress update recordedAt => do
    let r ← r.changeMilestone update.milestoneId fun m =>
      { m with percentageComplete := update.percentageComplete }
    .ok { r with
      history := r.history ++ [⟨update.milestoneId, update.percentageComplete, recordedAt⟩] }

/-- The effect of several writes, one after the other. -/
def applyAll (r : ContractRecords) (writes : List Write) : Except StoreError ContractRecords :=
  writes.foldlM apply r

/-- The records of a snapshot.  Of two records with one identifier the later one counts. -/
def ofSnapshot (s : Snapshot) : ContractRecords :=
  { contractId := s.contractId
    milestones := .ofList s.milestones
    dependencies := .ofList s.dependencies
    history := s.progressHistory }

/-- The records as a snapshot, milestones and dependencies in the order of their
identifiers. -/
def snapshot (r : ContractRecords) : Snapshot :=
  { contractId := r.contractId
    milestones := r.milestones.toList
    dependencies := r.dependencies.toList
    progressHistory := r.history }

end ContractRecords

/-! ## All contracts -/

/-- The records of all contracts, and whether the store can be reached. -/
structure Store where
  contracts : Table ContractRecords := .empty
  offline : Bool := false
  /-- How hash maps are arranged at present.  This decides in which order contracts are searched. -/
  hashing : Hashing := {}

namespace Store

/-- The records of a contract; one that was never written has none. -/
def records (s : Store) (c : ContractId) : ContractRecords :=
  (s.contracts.get? c).getD { contractId := c }

/-- Refuses while the store cannot be reached. -/
def checkOnline (s : Store) : Except StoreError Unit :=
  if s.offline then .error .unavailable else .ok ()

/-- A transaction on one contract: all writes in order, or the first refusal. -/
def apply (s : Store) (c : ContractId) (writes : List Write) : Except StoreError Store := do
  s.checkOnline
  let records ← (s.records c).applyAll writes
  .ok { s with contracts := s.contracts.insert records }

/-- Replaces the records of a contract as a whole, without any check. -/
def seed (s : Store) (snapshot : Snapshot) : Store :=
  { s with contracts := s.contracts.insert (.ofSnapshot snapshot) }

/-- The hash maps are arranged in another way. -/
def rehash (s : Store) (hashing : Hashing) : Store := { s with hashing := hashing }

/-- The store that holds one snapshot. -/
def ofSnapshot (snapshot : Snapshot) (hashing : Hashing := {}) : Store :=
  ({ hashing := hashing } : Store).seed snapshot

/-- The records of a contract as a snapshot. -/
def snapshot (s : Store) (c : ContractId) : Snapshot := (s.records c).snapshot

/-- The milestones of a contract. -/
def loadMilestones (s : Store) (c : ContractId) : Except StoreError (List Milestone) := do
  s.checkOnline
  .ok (s.records c).milestones.toList

/-- The dependencies of a contract. -/
def loadDependencies (s : Store) (c : ContractId) : Except StoreError (List Dependency) := do
  s.checkOnline
  .ok (s.records c).dependencies.toList

/-- The journal of a contract. -/
def loadHistory (s : Store) (c : ContractId) : Except StoreError (List ProgressReading) := do
  s.checkOnline
  .ok (s.records c).history

/-- The milestone with an identifier, in whichever contract it is stored.  If it is stored in
several, the one counts that the hash map of the contracts comes to first. -/
def loadMilestone (s : Store) (id : MilestoneId) : Except StoreError (Option Milestone) := do
  s.checkOnline
  .ok ((s.hashing.listed s.contracts).findSome? fun r => r.milestones.get? id)

/-! ### Transactions of one kind of write -/

/-- Stores a new milestone. -/
def createMilestone (s : Store) (m : Milestone) : Except StoreError Store :=
  s.apply m.contractId [.insertMilestone m]

/-- Replaces a milestone. -/
def updateMilestone (s : Store) (m : Milestone) : Except StoreError Store :=
  s.apply m.contractId [.replaceMilestone m]

/-- Removes a milestone. -/
def deleteMilestone (s : Store) (c : ContractId) (id : MilestoneId) : Except StoreError Store :=
  s.apply c [.deleteMilestone id]

/-- Stores a new dependency. -/
def createDependency (s : Store) (c : ContractId) (e : Dependency) : Except StoreError Store :=
  s.apply c [.insertDependency e]

/-- Removes a dependency. -/
def deleteDependency (s : Store) (c : ContractId) (id : DependencyId) : Except StoreError Store :=
  s.apply c [.deleteDependency id]

/-- Sets the status of several milestones. -/
def updateStatus (s : Store) (c : ContractId) (ids : List MilestoneId) (status : Status) :
    Except StoreError Store :=
  s.apply c [.setStatus ids status]

/-- Sets the progress of several milestones. -/
def updateProgress (s : Store) (c : ContractId) (updates : List ProgressUpdate)
    (recordedAt : Instant) : Except StoreError Store :=
  s.apply c (updates.map fun u => .setProgress u recordedAt)

end Store

end Milestones
