import Milestones.Change.Draft
import Milestones.Planner.Memory
import Milestones.Planner.Settings
import Milestones.Progress.Trend
import Milestones.Risk.Assessment
import Milestones.Schedule.Timeline

/-!
# The planner

A planner keeps contracts in a store, answers questions about their schedules, and takes
batches of changes.  It remembers schedules; whatever it writes makes it forget the schedule
of that contract.  What is written to the store behind its back does not.

Every operation returns an answer or a failure, and the planner as it is afterwards: a
failure keeps what was done before it.

## Main definitions

* `Planner`: settings, store and memory.
* `Planner.Run`: operations on a planner.
* `Planner.schedule` and the other questions; `Planner.applyBatch`, `Planner.syncCritical`.
-/

namespace Milestones

/-- A planner. -/
structure Planner where
  settings : Settings
  store : Store
  memory : Memory

/-- Why a planner refuses. -/
inductive PlannerError where
  | store (e : StoreError)
  | schedule (e : ScheduleError)
  | weights (e : WeightsError)
  | trend (e : TrendError)
  | rejected (index : Nat) (r : Rejection)
  | settings (e : SettingsError)
deriving DecidableEq

namespace PlannerError

/-- The message of a refusal. -/
def message : PlannerError → String
  | store e => "store error: " ++ e.message
  | schedule e => e.message
  | weights e => "analytics error: " ++ e.message
  | trend e => "analytics error: " ++ e.message
  | rejected index r => "batch operation " ++ toString index ++ " rejected: " ++ r.message
  | settings e => "configuration error: " ++ e.message

/-- The same request may succeed later. -/
def isRetryable : PlannerError → Bool
  | store e => e.isTransient
  | _ => false

/-- What is stored is at fault, not the request. -/
def isDataIntegrity : PlannerError → Bool
  | schedule (.orderMismatch _) => false
  | schedule _ => true
  | rejected _ r => r.isDataIntegrity
  | _ => false

/-- The cycles that are the reason, found in what is stored or in what it would become. -/
def cycle? : PlannerError → Option CycleReport
  | schedule (.cycle r) => some r
  | rejected _ (.cycle r) => some r
  | _ => none

end PlannerError

namespace Planner

/-- An operation on a planner. -/
abbrev Run (α : Type) := ExceptT (Failure PlannerError) (StateM Planner) α

namespace Run

/-- Goes on with an answer, or fails with an error of another kind. -/
def ofExcept {ε α : Type} (f : ε → PlannerError) (x : Except ε α) : Run α :=
  match x with
  | .ok a => pure a
  | .error e => throw (.refused (f e))

/-- Goes on with an answer, or fails. -/
def ofOutcome {ε α : Type} (f : ε → PlannerError) (x : Outcome ε α) : Run α :=
  match x with
  | .ok a => pure a
  | .error e => throw (e.map f)

/-- Reads from the store. -/
def load {α : Type} (read : Store → Except StoreError α) : Run α := do
  ofExcept .store (read (← get).store)

/-- Writes to the store. -/
def commit (c : ContractId) (writes : List Write) : Run Unit := do
  let p ← get
  let store ← ofExcept .store (p.store.apply c writes)
  set { p with store := store }

/-- The result of an operation and the planner after it. -/
def on {α : Type} (x : Run α) (p : Planner) : Outcome PlannerError α × Planner :=
  let (result, p) := (ExceptT.run x).run p
  (result, p)

end Run

/-- A planner on a store, if the settings are in order. -/
def create (store : Store) (settings : Settings) : Outcome PlannerError Planner := do
  Outcome.ofExcept .settings settings.validate
  let lifetime := settings.cacheTtl.map fun ttl => ttl.nanos.toNat
  let memory ← (Memory.create settings.cacheCapacity lifetime).mapError .fault
  pure ⟨settings, store, memory⟩

/-- A planner with default settings. -/
def withDefaults (store : Store) : Planner := ⟨{}, store, { enabled := true }⟩

/-! ## Memory -/

/-- Forgets the schedule of a contract. -/
def forget (c : ContractId) : Run Unit := modify fun p => { p with memory := p.memory.forget c }

/-- Forgets all schedules. -/
def forgetAll : Run Unit := modify fun p => { p with memory := p.memory.clear }

/-! ## Questions -/

/-- The graph of what is stored for a contract. -/
def loadGraph (c : ContractId) : Run Graph := do
  let milestones ← Run.load fun s => s.loadMilestones c
  let dependencies ← Run.load fun s => s.loadDependencies c
  Run.ofExcept (fun e => .schedule (.graph e)) (Graph.ofRecords c milestones dependencies)

/-- The schedule of a contract: the remembered one, or a new one, which is then
remembered. -/
def schedule (c : ContractId) : Run Schedule := do
  match (← get).memory.get? c with
  | some s => pure s
  | none =>
    let g ← loadGraph c
    let s ← Run.ofOutcome .schedule (Schedule.compute g)
    modify fun p => { p with memory := p.memory.insert c s }
    pure s

/-- Whether the dependencies of a contract are free of cycles. -/
def isAcyclic (c : ContractId) : Run Bool := do
  match (← get).memory.get? c with
  | some _ => pure true
  | none => return (← loadGraph c).isAcyclic

/-- The milestones of a contract in the order of work. -/
def order (c : ContractId) : Run (List MilestoneId) := do
  match (← get).memory.get? c with
  | some s => pure s.order.ids
  | none =>
    let g ← loadGraph c
    let o ← Run.ofExcept (fun r => .schedule (.cycle r)) g.workOrder
    pure o.ids

/-- The critical milestones in the order of work, marked as such. -/
def criticalMilestones (c : ContractId) : Run (List Milestone) := do
  let s ← schedule c
  pure ((s.timetable.critical.filterMap s.graph.milestone?).map fun m =>
    { m with criticalPath := true })

/-- The anchor of a schedule. -/
def anchorOf (s : Schedule) : Run (Option Instant) := do
  return s.anchor (← get).settings.scheduleStart

/-- The timeline of a contract. -/
def timeline (c : ContractId) : Run Timeline := do
  let s ← schedule c
  return Timeline.ofSchedule s (← anchorOf s)

/-- The timelines of several contracts, each or the reason why there is none. -/
def timelines (cs : List ContractId) :
    Run (List (ContractId × Except PlannerError Timeline)) :=
  cs.mapM fun c => do
    try
      return (c, .ok (← timeline c))
    catch
      | .refused e => pure (c, .error e)
      | .fault f => throw (.fault f)

/-- How much of a contract is done. -/
def completion (c : ContractId) (now : Instant) : Run Completion := do
  let s ← schedule c
  let rule := DueRule.ofTimetable s.timetable (← anchorOf s)
  pure (Completion.compute s.graph.milestones rule now)

/-- The overdue milestones of a contract. -/
def delays (c : ContractId) (now : Instant) : Run DelayReport := do
  let s ← schedule c
  let rule := DueRule.ofTimetable s.timetable (← anchorOf s)
  pure (DelayReport.compute s.graph.milestones rule (some s.timetable) now)

/-- The risk of a contract. -/
def risk (c : ContractId) : Run RiskAssessment := do
  let s ← schedule c
  Run.ofExcept .weights (RiskAssessment.compute s (← get).settings.riskWeights)

/-- The progress of a contract over time.  This asks the store alone. -/
def trend (c : ContractId) (now : Instant) : Run Trend := do
  let milestones ← Run.load fun s => s.loadMilestones c
  let history ← Run.load fun s => s.loadHistory c
  let p ← get
  Run.ofOutcome .trend
    (Trend.compute (milestones.map Milestone.id) history p.settings.trendBucket now p.store.hashing)

/-! ## Changes -/

/-- The milestones whose stored mark disagrees with a schedule, with the mark set right. -/
def staleMarks (s : Schedule) : List Milestone :=
  (s.graph.milestones.filter fun m => m.criticalPath != s.timetable.isCritical m.id).map fun m =>
    { m with criticalPath := !m.criticalPath }

/-- Marks in the store which milestones of a contract are critical, and returns how many
marks changed. -/
def syncCritical (c : ContractId) : Run Nat := do
  let s ← schedule c
  let stale := staleMarks s
  if !stale.isEmpty then
    Run.commit c (stale.map .replaceMilestone)
    forget c
  pure stale.length

/-- Notes for a draft which of some milestones belong to other contracts. -/
def lookElsewhere (d : Draft) : List MilestoneId → Run Draft
  | [] => pure d
  | id :: rest => do
    match ← Run.load fun s => s.loadMilestone id with
    | some m =>
      if m.contractId ≠ d.contractId then
        lookElsewhere { d with elsewhere := (id, m.contractId) :: d.elsewhere } rest
      else lookElsewhere d rest
    | none => lookElsewhere d rest

/-- The draft on which a batch is tried. -/
def draftFor (b : Batch) : Run Draft := do
  let milestones ← Run.load fun s => s.loadMilestones b.contractId
  let dependencies ← Run.load fun s => s.loadDependencies b.contractId
  let d := Draft.ofRecords b.contractId milestones dependencies
  lookElsewhere d (b.referenced.filter fun id => !d.milestones.contains id)

/-- Takes a batch of changes, as of some time.  Either all changes take effect or none. -/
def applyBatch (b : Batch) (now : Instant) : Run BatchOutcome := do
  let d ← draftFor b
  let (_, effect) ← Run.ofExcept (fun (index, r) => .rejected index r) (d.plan b now)
  let outcome := BatchOutcome.ofEffect effect
  if effect.writes.isEmpty then pure outcome
  else
    Run.commit b.contractId effect.writes
    forget b.contractId
    if (← get).settings.persistCriticalFlags && outcome.scheduleChanged then
      -- a schedule that cannot be computed leaves the marks as they are
      try
        let _ ← syncCritical b.contractId
      catch
        | .refused _ => pure ()
        | .fault f => throw (.fault f)
    pure outcome

end Planner

end Milestones
