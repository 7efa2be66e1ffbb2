import Milestones.Graph.Basic

/-!
# The order of work

The order places every milestone after all it depends on.  Whenever several milestones are
ready, the one with the lowest sequence number comes first, and among equals the one with
the lowest identifier, so a graph has one order only.  Links of both kinds count.

If at some point nothing is ready, the rest of the graph holds a cycle.  The report names
the milestones on cycles, grouped by which of them reach each other, and those that merely
wait behind one.

## Main definitions

* `Waiting`: a milestone not yet placed, with what it still waits for.
* `placeReady`: places milestones until nothing is ready.
* `Graph.workOrder`: the order, or a `CycleReport`.
-/

namespace Milestones

/-! ## Placing -/

/-- A milestone not yet placed and the predecessors not yet placed. -/
structure Waiting where
  id : MilestoneId
  unmet : List MilestoneId
deriving DecidableEq

namespace Waiting

/-- Nothing stands in the way. -/
def isReady (w : Waiting) : Bool := w.unmet.isEmpty

/-- What is still waited for once a milestone is placed. -/
def release (id : MilestoneId) (w : Waiting) : Waiting :=
  { w with unmet := w.unmet.filter (· != id) }

end Waiting

/-- Places the first ready milestone of the list again and again, and returns the placed
ones and those still waiting.  Every round places one, so as many rounds as there are
milestones suffice. -/
def placeReady : (rounds : Nat) → List Waiting → List MilestoneId × List Waiting
  | 0, waiting => ([], waiting)
  | rounds + 1, waiting =>
    match waiting.find? Waiting.isReady with
    | none => ([], waiting)
    | some w =>
      let rest := (waiting.filter fun v => v.id != w.id).map (Waiting.release w.id)
      let (placed, left) := placeReady rounds rest
      (w.id :: placed, left)

/-- The lower sequence number goes first, then the lower identifier. -/
def ranksBefore (a b : Milestone) : Bool :=
  a.sequenceNumber < b.sequenceNumber || (a.sequenceNumber == b.sequenceNumber && a.id ≤ b.id)

/-- All milestones by rank, each with its predecessors. -/
def Graph.waiting (g : Graph) : List Waiting :=
  (g.nodes.toList.mergeSort fun a b => ranksBefore a.milestone b.milestone).map fun n =>
    ⟨n.milestone.id, n.predecessors.ids⟩

/-! ## Cycles -/

/-- What is reached from a frontier in any number of steps, added to what was seen.  Every
round adds something new or is the last. -/
def spread (step : MilestoneId → List MilestoneId) :
    (rounds : Nat) → (frontier seen : List MilestoneId) → List MilestoneId
  | 0, _, seen => seen
  | rounds + 1, frontier, seen =>
    let fresh := ((frontier.flatMap step).filter fun id => !seen.contains id).eraseDups
    if fresh.isEmpty then seen else spread step rounds fresh (seen ++ fresh)

/-- What a stuck milestone waits for, directly or indirectly. -/
def Waiting.behind (waiting : List Waiting) (w : Waiting) : List MilestoneId :=
  let step (id : MilestoneId) : List MilestoneId :=
    ((waiting.find? fun v => v.id == id).map Waiting.unmet).getD []
  spread step waiting.length w.unmet w.unmet

/-- The cycles that keep a graph from being ordered. -/
structure CycleReport where
  contractId : ContractId
  /-- Every milestone on some cycle, ascending. -/
  members : List MilestoneId
  /-- The members in groups that reach each other; each group and the list of groups are
  ascending. -/
  groups : List (List MilestoneId)
  /-- The milestones behind a cycle but not on one, ascending. -/
  blocked : List MilestoneId
deriving DecidableEq

namespace CycleReport

/-- The message of a report. -/
def message (r : CycleReport) : String :=
  "dependency cycle in contract " ++ r.contractId.text ++ ": " ++ toString r.members.length ++
    " milestone(s) on a cycle: " ++ ", ".intercalate (r.members.map RecordId.text)

/-- The milestone is on a cycle. -/
def involves (r : CycleReport) (id : MilestoneId) : Bool := r.members.contains id

/-- The report on milestones of which none is ready. -/
def ofStuck (c : ContractId) (stuck : List Waiting) : CycleReport :=
  let ascending := stuck.mergeSort fun a b => a.id ≤ b.id
  let reach := ascending.map fun w => (w.id, Waiting.behind stuck w)
  let onCycle := reach.filter fun (id, behind) => behind.contains id
  let group (id : MilestoneId) (behind : List MilestoneId) : List MilestoneId :=
    (onCycle.filter fun (id', behind') => behind.contains id' && behind'.contains id).map Prod.fst
  let groups := onCycle.filterMap fun (id, behind) =>
    let g := group id behind
    if g.head? = some id then some g else none
  { contractId := c
    members := onCycle.map Prod.fst
    groups := groups
    blocked := (reach.filter fun (id, behind) => !behind.contains id).map Prod.fst }

end CycleReport

/-! ## The order -/

/-- An order in which the milestones of a contract can be done. -/
structure WorkOrder where
  contractId : ContractId
  ids : List MilestoneId
deriving DecidableEq

namespace WorkOrder

/-- The place of a milestone in the order, from zero. -/
def position? (o : WorkOrder) (id : MilestoneId) : Option Nat := o.ids.findIdx? (· == id)

end WorkOrder

namespace Graph

/-- The order of work, or a report of the cycles that prevent one. -/
def workOrder (g : Graph) : Except CycleReport WorkOrder :=
  let waiting := g.waiting
  match placeReady waiting.length waiting with
  | (placed, []) => .ok ⟨g.contractId, placed⟩
  | (_, stuck) => .error (.ofStuck g.contractId stuck)

/-- The graph has an order of work. -/
def isAcyclic (g : Graph) : Bool := g.workOrder.isOk

end Graph

end Milestones
