import Milestones.Proofs.Schedule.Timetable

/-!
# What the schedule reads of a milestone

The order of work looks at the sequence number of a milestone, the timetable at its planned
duration, and the anchor of a schedule at its planned start.  Nothing else of a milestone matters:
with titles, status, progress, weights and critical marks wiped out, the graph of a contract has the
same links, the same order of work or the same report of cycles, and the same timetable, or there is
none for the same reason.

## Main definitions

* `Milestone.outline`, `Graph.outline`: what is left when everything else is wiped out.

## Main statements

* `Graph.ofRecords_outline`: a graph may be made before or after wiping.
* `Graph.links_outline`, `Graph.workOrder_outline`, `Graph.timetable_outline`: views of the outline.
* `Schedule.compute_outline`: the schedule of the outline.
-/

namespace Milestones

open Outcome

/-- What a schedule reads of a milestone.  Everything else is wiped out. -/
def Milestone.outline (m : Milestone) : Milestone :=
  { id := m.id
    contractId := m.contractId
    title := ""
    sequenceNumber := m.sequenceNumber
    estimatedStart := m.estimatedStart
    estimatedDuration := m.estimatedDuration }

theorem Milestone.recordId_outline (m : Milestone) : recordId m.outline = recordId m := rfl

def Node.outline (n : Node) : Node := { n with milestone := n.milestone.outline }

theorem Node.recordId_outline (n : Node) : recordId n.outline = recordId n := rfl

namespace Graph

/-- The graph with the outlines of its milestones. -/
def outline (g : Graph) : Graph :=
  { g with nodes := g.nodes.map Node.outline Node.recordId_outline }

variable (g : Graph)

/-! ## Building -/

@[simp] theorem contains_outline (id : MilestoneId) : g.outline.contains id = g.contains id :=
  g.nodes.contains_map Node.recordId_outline id

theorem addMilestone_outline (m : Milestone) :
    g.outline.addMilestone m.outline = (g.addMilestone m).map outline := by
  have hnew : g.outline.nodes.contains m.id = g.nodes.contains m.id := g.contains_outline m.id
  rw [addMilestone, addMilestone]
  change (if m.contractId ≠ g.contractId then _ else
    if g.outline.nodes.contains m.id = true then _ else _) = _
  rw [hnew]
  split
  · rfl
  split
  · rfl
  · exact congrArg (fun nodes => Except.ok { g with nodes := nodes })
      (g.nodes.insert_map Node.recordId_outline { milestone := m }).symm

theorem addDependency_outline (e : Dependency) :
    g.outline.addDependency e = (g.addDependency e).map outline := by
  have hin := g.contains_outline
  simp only [contains] at hin
  rw [addDependency, addDependency, hin, hin]
  cases g.nodes.contains e.milestoneId with
  | false => rfl
  | true =>
    cases g.nodes.contains e.dependsOnId with
    | false => rfl
    | true =>
      refine congrArg (fun nodes => Except.ok { g with nodes := nodes, edges := g.edges ++ [e] }) ?_
      change _ = ((g.nodes.modify _ _).modify _ _).map Node.outline Node.recordId_outline
      -- The links of a node and its milestone are different parts of it.
      rw [Table.modify_map, Table.modify_map]
      · rfl
      all_goals exact fun _ => rfl

/-- A graph may be made of records before or after everything else is wiped out. -/
theorem ofRecords_outline (c : ContractId) (ms : List Milestone) (es : List Dependency) :
    ofRecords c (ms.map Milestone.outline) es = (ofRecords c ms es).map outline := by
  have hmilestones : (ms.map Milestone.outline).foldlM addMilestone { contractId := c } =
      (ms.foldlM addMilestone { contractId := c }).map outline :=
    foldlM_map_comm addMilestone_outline ms { contractId := c }
  rw [ofRecords, ofRecords, hmilestones]
  cases ms.foldlM addMilestone { contractId := c } with
  | error e => rfl
  | ok g =>
    have hdependencies := foldlM_map_comm (k := id) addDependency_outline es g
    rwa [List.map_id] at hdependencies

/-! ## Links and order -/

@[simp] theorem predecessors_outline (id : MilestoneId) :
    g.outline.predecessors id = g.predecessors id := by
  rw [predecessors, predecessors, outline, Table.get?_map, Option.map_map]
  rfl

@[simp] theorem successors_outline (id : MilestoneId) :
    g.outline.successors id = g.successors id := by
  rw [successors, successors, outline, Table.get?_map, Option.map_map]
  rfl

@[simp] theorem prerequisites_outline (id : MilestoneId) :
    g.outline.prerequisites id = g.prerequisites id := by
  rw [prerequisites, prerequisites, predecessors_outline]

@[simp] theorem dependents_outline (id : MilestoneId) :
    g.outline.dependents id = g.dependents id := by
  rw [dependents, dependents, successors_outline]

theorem links_outline : g.outline.links = g.links := by
  rw [links, links, outline, Table.toList_map, List.flatMap_map]
  rfl

theorem waiting_outline : g.outline.waiting = g.waiting := by
  -- Ranks compare sequence numbers and identifiers, and both are left.
  have hranked : (g.nodes.toList.map Node.outline).mergeSort
        (fun a b => ranksBefore a.milestone b.milestone) =
      (g.nodes.toList.mergeSort fun a b => ranksBefore a.milestone b.milestone).map Node.outline :=
    (List.map_mergeSort (f := Node.outline) fun _ _ _ _ => rfl).symm
  rw [waiting, waiting, outline, Table.toList_map, hranked, List.map_map]
  rfl

theorem workOrder_outline : g.outline.workOrder = g.workOrder := by
  rw [workOrder, workOrder, waiting_outline]
  rfl

/-! ## Timetables -/

@[simp] theorem duration_outline (id : MilestoneId) : g.outline.duration id = g.duration id := by
  rw [duration, duration, milestone?, milestone?, outline, Table.get?_map, Option.map_map,
    Option.map_map, Option.map_map]
  rfl

theorem fits_outline (o : WorkOrder) : o.fits g.outline = o.fits g := by
  have hsize : g.outline.size = g.size := List.length_map _
  have hcontains : g.outline.contains = g.contains := funext g.contains_outline
  rw [WorkOrder.fits, WorkOrder.fits, hsize, hcontains]
  rfl

theorem forwardPass_outline (known : List Early) (ids : List MilestoneId) :
    forwardPass g.outline known ids = forwardPass g known ids := by
  induction ids generalizing known with
  | nil => rfl
  | cons id rest ih =>
    rw [forwardPass, forwardPass, prerequisites_outline, duration_outline]
    simp only [ih]

theorem totalDuration_outline (early : List Early) :
    totalDuration g.outline early = totalDuration g early := by
  simp only [totalDuration, dependents_outline]

theorem backwardPass_outline (total : Duration) (early : List Early) :
    backwardPass g.outline total early = backwardPass g total early := by
  induction early with
  | nil => rfl
  | cons e rest ih => simp only [backwardPass, ih, dependents_outline]

theorem timing?_outline (early : List Early) (total : Duration) :
    Late.timing? g.outline early total = Late.timing? g early total := by
  funext l
  simp only [Late.timing?, dependents_outline]

theorem draft_outline (o : WorkOrder) : g.outline.draft o = g.draft o := by
  have hcheck : g.outline.check o = g.check o := by
    simp only [check, negative?, fits_outline, duration_outline]
    rfl
  simp only [draft, hcheck, forwardPass_outline, totalDuration_outline, backwardPass_outline,
    timing?_outline]
  rfl

theorem walkBack_outline (timings : List Timing) (steps : Nat) (t : Timing) :
    walkBack g.outline timings steps t = walkBack g timings steps t := by
  induction steps generalizing t with
  | zero => rfl
  | succ steps ih => simp only [walkBack, ih, prerequisites_outline]

theorem timetable_outline (o : WorkOrder) : g.outline.timetable o = g.timetable o := by
  have hchain : ∀ timings total,
      criticalChain? g.outline timings total = criticalChain? g timings total := by
    intro timings total
    simp only [criticalChain?, walkBack_outline, dependents_outline]
  have htraced : Timetable.traced g.outline = Timetable.traced g := by
    funext t
    rw [Timetable.traced, Timetable.traced, hchain]
  rw [timetable_eq, timetable_eq, draft_outline, htraced]

end Graph

namespace Schedule

/-- The schedule with the outlines of its milestones. -/
def outline (s : Schedule) : Schedule := { s with graph := s.graph.outline }

/-- The schedule of the outline has the same order and the same timetable. -/
theorem compute_outline (g : Graph) : compute g.outline = (compute g).map outline := by
  rw [compute, compute, g.workOrder_outline]
  cases g.workOrder with
  | error r => rfl
  | ok o =>
    change (g.outline.timetable o >>= _) = Except.map _ (g.timetable o >>= _)
    rw [g.timetable_outline]
    cases g.timetable o <;> rfl

theorem earliestPlannedStart_outline (s : Schedule) :
    s.outline.earliestPlannedStart = s.earliestPlannedStart := by
  rw [earliestPlannedStart, earliestPlannedStart, outline, Graph.milestones, Graph.milestones,
    Graph.outline, Table.toList_map, List.map_map, List.filterMap_map, List.filterMap_map]
  rfl

end Schedule

end Milestones
