import Milestones.Change.Mutation
import Milestones.Change.Rejection

/-!
# Planning a batch

A batch is tried in full on a draft, a copy of the contract's records, before anything is
written.  Planning turns it into writes for one transaction, so a batch takes effect as a
whole or not at all.

Status changes follow the life of a milestone and stamp its actual dates.  Progress moves
the status along: the first progress starts a milestone, the full hundred completes it.
Deleting a milestone deletes the dependencies at it.  A new dependency joins two different
milestones of the contract, repeats none that is there, and closes no cycle.

## Main definitions

* `Draft`: the records as they would be.
* `Draft.mutate`: one change to the draft, with the writes it takes.
* `Draft.plan`: a whole batch.
-/

namespace Milestones

/-! ## Changes to one milestone -/

namespace Milestone

/-- Moves a milestone to a status and stamps its actual dates: the start with the first
start of work, the end and the measured duration with completion. -/
def moveTo (m : Milestone) (target : Status) (now : Instant) : Except Rejection Milestone := do
  (m.status.move target).mapError (.illegalTransition m.id)
  match target with
  | .inProgress =>
    .ok { m with status := target, actualStart := some (m.actualStart.getD now) }
  | .completed =>
    let start := m.actualStart.getD now
    .ok { m with
      status := target
      actualStart := some start
      actualEnd := some now
      actualDuration := some (now.since start) }
  | _ => .ok { m with status := target }

/-- The reading starts work on a milestone.  A blocked one stays blocked until it is done. -/
def startsWith (m : Milestone) (value : Float) : Bool :=
  match m.status with
  | .pending => 0 < value
  | .blocked => 100 ≤ value
  | _ => false

/-- Takes a progress reading together with the changes of status that it implies. -/
def recordProgress (m : Milestone) (value : Float) (now : Instant) : Except Rejection Milestone := do
  if !(value.isFinite && 0 ≤ value && value ≤ 100) then throw (.invalidProgress m.id value)
  if m.status.isTerminal then throw (.progressOnClosed m.id m.status)
  let m ← if m.startsWith value then m.moveTo .inProgress now else pure m
  let m ← if 100 ≤ value then m.moveTo .completed now else pure m
  pure { m with percentageComplete := value }

end Milestone

/-! ## Drafts -/

/-- The records of a contract as they would be after some changes. -/
structure Draft where
  contractId : ContractId
  milestones : Table Milestone
  dependencies : Table Dependency
  /-- Milestones that are known to belong to other contracts. -/
  elsewhere : List (MilestoneId × ContractId) := []
deriving DecidableEq

/-- What changes to a draft take. -/
structure Effect where
  writes : List Write := []
  /-- Milestones created, changed or deleted, counted as often as that happens. -/
  touched : Nat := 0
  /-- Dependencies deleted together with a milestone. -/
  cascaded : Nat := 0
  /-- The order of work or the timetable may change. -/
  reschedules : Bool := false
deriving DecidableEq

namespace Effect

/-- Two effects, one after the other. -/
def append (a b : Effect) : Effect :=
  ⟨a.writes ++ b.writes, a.touched + b.touched, a.cascaded + b.cascaded,
    a.reschedules || b.reschedules⟩

instance : Append Effect := ⟨append⟩

end Effect

namespace Draft

/-- The draft of records without any change. -/
def ofRecords (c : ContractId) (milestones : List Milestone) (dependencies : List Dependency) :
    Draft :=
  { contractId := c, milestones := .ofList milestones, dependencies := .ofList dependencies }

/-- Looks a milestone up.  One that belongs to another contract is told apart from one that
does not exist. -/
def find (d : Draft) (id : MilestoneId) : Except Rejection Milestone :=
  match d.elsewhere.lookup id with
  | some actual => .error (.contractMismatch id d.contractId actual)
  | none =>
    match d.milestones.get? id with
    | some m => .ok m
    | none => .error (.milestoneNotFound id)

/-- Replaces a milestone. -/
def put (d : Draft) (m : Milestone) : Draft := { d with milestones := d.milestones.insert m }

/-- Refuses a negative duration. -/
def checkDuration (id : MilestoneId) (duration : Option Duration) : Except Rejection Unit :=
  match duration with
  | some d => if d < .zero then .error (.negativeDuration id d.seconds) else .ok ()
  | none => .ok ()

/-- Moves one milestone to a status; one that is there already is left alone. -/
def setStatus (status : Status) (now : Instant) (d : Draft) (id : MilestoneId) :
    Except Rejection (Draft × Effect) := do
  let m ← d.find id
  if m.status = status then pure (d, {})
  else
    let m ← m.moveTo status now
    pure (d.put m, { writes := [.replaceMilestone m], touched := 1 })

/-- Takes one progress reading. -/
def setProgress (now : Instant) (d : Draft) (u : ProgressUpdate) :
    Except Rejection (Draft × Effect) := do
  let m ← d.find u.milestoneId
  let m ← m.recordProgress u.percentageComplete now
  pure (d.put m, { writes := [.replaceMilestone m, .setProgress u now], touched := 1 })

/-- The changes of a list one after the other, with their effects. -/
def each {α : Type} (change : Draft → α → Except Rejection (Draft × Effect)) :
    Draft → List α → Except Rejection (Draft × Effect)
  | d, [] => .ok (d, {})
  | d, a :: rest => do
    let (d, e) ← change d a
    let (d, more) ← each change d rest
    pure (d, e ++ more)

/-- Refuses a new dependency that breaks a rule: its two ends are different milestones of
the contract, it repeats no dependency, and it closes no cycle. -/
def checkDependency (d : Draft) (e : Dependency) : Except Rejection Unit := do
  let _ ← d.find e.milestoneId
  let _ ← d.find e.dependsOnId
  if e.milestoneId = e.dependsOnId then throw (.selfDependency e.milestoneId)
  if d.dependencies.contains e.id then throw (.duplicateDependencyId e.id)
  let repeated := d.dependencies.toList.any fun x =>
    x.milestoneId == e.milestoneId && x.dependsOnId == e.dependsOnId && x.kind == e.kind
  if repeated then throw (.duplicateDependency e.milestoneId e.dependsOnId e.kind)
  let g ← (Graph.ofRecords d.contractId d.milestones.toList
    (d.dependencies.toList ++ [e])).mapError .graph
  let _ ← g.workOrder.mapError .cycle
  pure ()

/-- One change. -/
def mutate (d : Draft) (now : Instant) : Mutation → Except Rejection (Draft × Effect)
  | .setStatus ids status => each (setStatus status now) d ids
  | .setProgress updates => each (setProgress now) d updates
  | .createMilestone m => do
    if m.contractId ≠ d.contractId then
      throw (.contractMismatch m.id d.contractId m.contractId)
    if d.milestones.contains m.id || (d.elsewhere.lookup m.id).isSome then
      throw (.duplicateMilestone m.id)
    checkDuration m.id m.estimatedDuration
    let m := { m with criticalPath := false }
    pure (d.put m, { writes := [.insertMilestone m], touched := 1 })
  | .updateMilestone id edit => do
    checkDuration id edit.estimatedDuration
    let m ← d.find id
    let m := edit.apply m
    pure (d.put m, { writes := [.replaceMilestone m], touched := 1 })
  | .deleteMilestone id => do
    let _ ← d.find id
    let incident := (d.dependencies.toList.filter (·.touches id)).map Dependency.id
    pure
      ({ d with
          milestones := d.milestones.erase id
          dependencies := d.dependencies.filter fun e => !e.touches id },
        { writes := incident.map .deleteDependency ++ [.deleteMilestone id]
          touched := 1
          cascaded := incident.length })
  | .addDependency e => do
    d.checkDependency e
    pure
      ({ d with dependencies := d.dependencies.insert e }, { writes := [.insertDependency e] })
  | .removeDependency id => do
    if !d.dependencies.contains id then throw (.dependencyNotFound id)
    pure
      ({ d with dependencies := d.dependencies.erase id }, { writes := [.deleteDependency id] })

/-- Changes one after the other.  A rejection names the place of the change in the list,
counted from `index` on. -/
def planFrom (now : Instant) : (index : Nat) → Draft → List Mutation →
    Except (Nat × Rejection) (Draft × Effect)
  | _, d, [] => .ok (d, {})
  | index, d, m :: rest => do
    let (d, e) ← (d.mutate now m).mapError fun r => (index, r)
    let (d, more) ← planFrom now (index + 1) d rest
    pure (d, { e with reschedules := m.touchesSchedule } ++ more)

/-- A whole batch: the draft after it, and the writes it takes. -/
def plan (d : Draft) (b : Batch) (now : Instant) : Except (Nat × Rejection) (Draft × Effect) :=
  planFrom now 0 d b.mutations

end Draft

/-! ## What a batch did -/

/-- What a batch did. -/
structure BatchOutcome where
  /-- Writes to the store. -/
  operations : Nat
  milestonesTouched : Nat
  cascadedDependencies : Nat
  /-- The order of work or the timetable may have changed. -/
  scheduleChanged : Bool
deriving DecidableEq

namespace BatchOutcome

/-- The outcome of a batch with the given effect. -/
def ofEffect (e : Effect) : BatchOutcome :=
  { operations := e.writes.length
    milestonesTouched := e.touched
    cascadedDependencies := e.cascaded
    scheduleChanged := e.reschedules }

open Datum

/-- Writes an outcome. -/
def toDatum (o : BatchOutcome) : Datum :=
  record
    [("operations", int o.operations),
      ("milestones_touched", int o.milestonesTouched),
      ("cascaded_dependencies", int o.cascadedDependencies),
      ("schedule_changed", bool o.scheduleChanged)]

end BatchOutcome

end Milestones
