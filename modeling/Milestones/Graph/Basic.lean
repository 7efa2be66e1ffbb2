import Milestones.Store

/-!
# The dependency graph of a contract

The graph joins the milestones of a contract by its dependency records.  Several records
may join the same two milestones in the same direction; they make one link, which is a
prerequisite if any of them is one.  The graph may have cycles: ordering it is what finds
them.

## Main definitions

* `Graph`: milestones with their links in both directions, and the records as listed.
* `Graph.ofRecords`: the graph of some milestones and dependencies, or why there is none.
* `Graph.addDependency`: the graph with one more dependency.
-/

namespace Milestones

/-- A neighbour in the graph and the kind of the link to it. -/
structure Link where
  id : MilestoneId
  kind : DependencyKind
deriving DecidableEq

instance : Identified Link .milestone := ⟨Link.id⟩

/-- The link constrains timing. -/
def Link.isPrerequisite (l : Link) : Bool := l.kind == .prerequisite

/-- A milestone and its neighbours, each list ascending by identifier. -/
structure Node where
  milestone : Milestone
  predecessors : Table Link := .empty
  successors : Table Link := .empty
deriving DecidableEq

instance : Identified Node .milestone := ⟨fun n => n.milestone.id⟩

/-- The milestones of a contract, joined by its dependencies. -/
structure Graph where
  contractId : ContractId
  nodes : Table Node := .empty
  /-- The dependency records in the order they were added. -/
  edges : List Dependency := []
deriving DecidableEq

/-- Why records do not make a graph. -/
inductive GraphError where
  | foreignMilestone (id : MilestoneId) (expected actual : ContractId)
  | duplicateMilestone (id : MilestoneId)
  | danglingDependency (id : DependencyId) (missing : MilestoneId)
deriving DecidableEq

/-- The message of a refusal. -/
def GraphError.message : GraphError → String
  | foreignMilestone id expected actual =>
    "milestone " ++ id.text ++ " belongs to contract " ++ actual.text ++ ", not " ++ expected.text
  | duplicateMilestone id => "duplicate milestone " ++ id.text
  | danglingDependency id missing =>
    "dependency " ++ id.text ++ " references missing milestone " ++ missing.text

/-- Adds a link to those of a milestone.  A second link to the same neighbour leaves one of
the stronger kind. -/
def addLink (links : Table Link) (link : Link) : Table Link :=
  match links.get? link.id with
  | none => links.insert link
  | some old => links.insert { link with kind := old.kind.strongest link.kind }

namespace Graph

/-! ## Building -/

/-- Adds a milestone without links. -/
def addMilestone (g : Graph) (m : Milestone) : Except GraphError Graph :=
  if m.contractId ≠ g.contractId then
    .error (.foreignMilestone m.id g.contractId m.contractId)
  else if g.nodes.contains m.id then .error (.duplicateMilestone m.id)
  else .ok { g with nodes := g.nodes.insert { milestone := m } }

/-- Adds a dependency between two milestones of the graph. -/
def addDependency (g : Graph) (e : Dependency) : Except GraphError Graph :=
  if !g.nodes.contains e.milestoneId then .error (.danglingDependency e.id e.milestoneId)
  else if !g.nodes.contains e.dependsOnId then .error (.danglingDependency e.id e.dependsOnId)
  else
    let nodes := g.nodes.modify e.milestoneId fun n =>
      { n with predecessors := addLink n.predecessors ⟨e.dependsOnId, e.kind⟩ }
    let nodes := nodes.modify e.dependsOnId fun n =>
      { n with successors := addLink n.successors ⟨e.milestoneId, e.kind⟩ }
    .ok { g with nodes := nodes, edges := g.edges ++ [e] }

/-- The graph of some milestones and the dependencies between them. -/
def ofRecords (c : ContractId) (milestones : List Milestone) (dependencies : List Dependency) :
    Except GraphError Graph := do
  let g ← milestones.foldlM addMilestone { contractId := c }
  dependencies.foldlM addDependency g

/-! ## Views -/

/-- The number of milestones. -/
def size (g : Graph) : Nat := g.nodes.size

/-- The milestone is part of the graph. -/
def contains (g : Graph) (id : MilestoneId) : Bool := g.nodes.contains id

/-- The record of a milestone. -/
def milestone? (g : Graph) (id : MilestoneId) : Option Milestone :=
  (g.nodes.get? id).map Node.milestone

/-- All milestones, ascending by identifier. -/
def milestones (g : Graph) : List Milestone := g.nodes.toList.map Node.milestone

/-- The milestones that a milestone depends on, in any way. -/
def predecessors (g : Graph) (id : MilestoneId) : List Link :=
  ((g.nodes.get? id).map fun n => n.predecessors.toList).getD []

/-- The milestones that depend on a milestone, in any way. -/
def successors (g : Graph) (id : MilestoneId) : List Link :=
  ((g.nodes.get? id).map fun n => n.successors.toList).getD []

/-- The milestones that have to finish before a milestone starts. -/
def prerequisites (g : Graph) (id : MilestoneId) : List MilestoneId :=
  ((g.predecessors id).filter Link.isPrerequisite).map Link.id

/-- The milestones that a milestone holds up. -/
def dependents (g : Graph) (id : MilestoneId) : List MilestoneId :=
  ((g.successors id).filter Link.isPrerequisite).map Link.id

/-- The milestones that depend on nothing. -/
def sources (g : Graph) : List MilestoneId :=
  (g.nodes.toList.filter fun n => n.predecessors.toList.isEmpty).map fun n => n.milestone.id

/-- The milestones that nothing depends on. -/
def sinks (g : Graph) : List MilestoneId :=
  (g.nodes.toList.filter fun n => n.successors.toList.isEmpty).map fun n => n.milestone.id

/-- The dependency records at a milestone. -/
def incident (g : Graph) (id : MilestoneId) : List Dependency := g.edges.filter (·.touches id)

/-- The milestones that go along with a milestone: those at the other end of a parallel
link, in either direction, ascending. -/
def parallelGroup (g : Graph) (id : MilestoneId) : List MilestoneId :=
  (Table.ofList ((g.predecessors id ++ g.successors id).filter fun l => l.kind == .parallel)).ids

/-- All links as prerequisite, dependent and kind, ascending. -/
def links (g : Graph) : List (MilestoneId × MilestoneId × DependencyKind) :=
  g.nodes.toList.flatMap fun n =>
    n.successors.toList.map fun l => (n.milestone.id, l.id, l.kind)

end Graph

end Milestones
