import Milestones.Graph.Basic

/-!
# Graphs in the making

A sketch holds what a graph is made of while it is being made: the milestones, one joint for every
two of them that records join in one direction, and the records as they were added.  A joint keeps
the strongest kind of its records.  A complete sketch is drawn as a graph: every joint becomes a
link at both of its ends.

A graph gets one more dependency by way of a sketch.  The joints of that sketch come from the links
of the graph, where several records have already become one, and not from the records themselves.

## Main definitions

* `Joint`: two milestones that are joined, and how.
* `Sketch`: a graph in the making, with `Sketch.addMilestone` and `Sketch.addDependency`.
* `Sketch.graph`, `Sketch.ofGraph`: the graph of a sketch, and the sketch of a graph.
* `Sketch.ofRecords`: the sketch of some milestones and dependencies.
* `Graph.withDependency`: the graph with one more dependency, by way of its sketch.
-/

namespace Milestones

/-! ## Joints -/

/-- A milestone, one that it depends on, and the strongest kind of the records that say so. -/
structure Joint where
  dependent : MilestoneId
  prerequisite : MilestoneId
  kind : DependencyKind
deriving DecidableEq

namespace Joint

/-- Joints ascend by the dependent, and by the prerequisite where the dependent is the same. -/
def Before (x y : Joint) : Prop :=
  x.dependent < y.dependent ∨ x.dependent = y.dependent ∧ x.prerequisite < y.prerequisite

instance (x y : Joint) : Decidable (x.Before y) :=
  inferInstanceAs (Decidable (x.dependent < y.dependent ∨
    x.dependent = y.dependent ∧ x.prerequisite < y.prerequisite))

theorem Before.trans {x y z : Joint} (h : x.Before y) (h' : y.Before z) : x.Before z := by
  rcases h with hlt | ⟨hsame, hlt⟩
  · rcases h' with hlt' | ⟨hsame', -⟩
    · exact .inl (RecordId.lt_iff.2 (Nat.lt_trans hlt hlt'))
    · exact .inl (hsame' ▸ hlt)
  · rcases h' with hlt' | ⟨hsame', hlt'⟩
    · exact .inl (hsame ▸ hlt')
    · exact .inr ⟨hsame.trans hsame', RecordId.lt_iff.2 (Nat.lt_trans hlt hlt')⟩

/-- Where neither joint stands before the other, they have the same ends. -/
theorem ends_eq_of_not_before {x y : Joint} (h : ¬x.Before y) (h' : ¬y.Before x) :
    x.dependent = y.dependent ∧ x.prerequisite = y.prerequisite := by
  simp only [Before, RecordId.lt_iff, not_or, not_and] at h h'
  have hdependent : x.dependent = y.dependent := RecordId.ext (by omega)
  have hle := h.2 hdependent
  have hge := h'.2 hdependent.symm
  exact ⟨hdependent, RecordId.ext (by omega)⟩

/-- Puts a joint in its place among ascending ones.  If its ends are joined already, the stronger
kind stays. -/
def weave (x : Joint) : List Joint → List Joint
  | [] => [x]
  | y :: rest =>
    if x.Before y then x :: y :: rest
    else if y.Before x then y :: weave x rest
    else { y with kind := y.kind.strongest x.kind } :: rest

/-- After the joint there are the same places as before it, and its own. -/
theorem exists_of_mem_weave {x z : Joint} {joints : List Joint} (h : z ∈ weave x joints) :
    ∃ y, (y = x ∨ y ∈ joints) ∧ z.dependent = y.dependent ∧ z.prerequisite = y.prerequisite := by
  induction joints with
  | nil => exact ⟨x, .inl rfl, by simp [List.mem_singleton.1 h]⟩
  | cons y rest ih =>
    unfold weave at h
    split at h
    · exact ⟨z, List.mem_cons.1 h, rfl, rfl⟩
    · split at h
      · rcases List.mem_cons.1 h with rfl | h
        · exact ⟨z, .inr List.mem_cons_self, rfl, rfl⟩
        · obtain ⟨w, hw | hw, hends⟩ := ih h
          · exact ⟨w, .inl hw, hends⟩
          · exact ⟨w, .inr (List.mem_cons_of_mem _ hw), hends⟩
      · rcases List.mem_cons.1 h with rfl | h
        · exact ⟨y, .inr List.mem_cons_self, rfl, rfl⟩
        · exact ⟨z, .inr (List.mem_cons_of_mem _ h), rfl, rfl⟩

theorem pairwise_weave {x : Joint} {joints : List Joint} (h : joints.Pairwise Before) :
    (weave x joints).Pairwise Before := by
  induction joints with
  | nil => simp [weave]
  | cons y rest ih =>
    obtain ⟨hy, hrest⟩ := List.pairwise_cons.1 h
    unfold weave
    split
    · rename_i hxy
      refine List.pairwise_cons.2 ⟨fun z hz => ?_, h⟩
      rcases List.mem_cons.1 hz with rfl | hz
      · exact hxy
      · exact hxy.trans (hy z hz)
    · split
      · rename_i hyx
        refine List.pairwise_cons.2 ⟨fun z hz => ?_, ih hrest⟩
        obtain ⟨w, hw, hdependent, hprerequisite⟩ := exists_of_mem_weave hz
        have hyw : y.Before w := by
          rcases hw with rfl | hw
          · exact hyx
          · exact hy w hw
        rwa [Before, hdependent, hprerequisite]
      · exact List.pairwise_cons.2 ⟨hy, hrest⟩

end Joint

/-! ## Sketches -/

/-- A graph in the making. -/
structure Sketch where
  contractId : ContractId
  milestones : Table Milestone := .empty
  joints : List Joint := []
  joints_ascending : joints.Pairwise Joint.Before := by exact .nil
  /-- The dependency records in the order they were added. -/
  edges : List Dependency := []

namespace Sketch

/-- Adds a milestone without joints. -/
def addMilestone (s : Sketch) (m : Milestone) : Except GraphError Sketch :=
  if m.contractId ≠ s.contractId then
    .error (.foreignMilestone m.id s.contractId m.contractId)
  else if s.milestones.contains m.id then .error (.duplicateMilestone m.id)
  else .ok { s with milestones := s.milestones.insert m }

/-- Adds a dependency between two milestones of the sketch. -/
def addDependency (s : Sketch) (e : Dependency) : Except GraphError Sketch :=
  if !s.milestones.contains e.milestoneId then .error (.danglingDependency e.id e.milestoneId)
  else if !s.milestones.contains e.dependsOnId then .error (.danglingDependency e.id e.dependsOnId)
  else
    .ok { s with
      joints := Joint.weave ⟨e.milestoneId, e.dependsOnId, e.kind⟩ s.joints
      joints_ascending := Joint.pairwise_weave s.joints_ascending
      edges := s.edges ++ [e] }

/-- The sketch of some milestones and the dependencies between them. -/
def ofRecords (c : ContractId) (milestones : List Milestone) (dependencies : List Dependency) :
    Except GraphError Sketch := do
  let s ← milestones.foldlM addMilestone { contractId := c }
  dependencies.foldlM addDependency s

/-! ## Sketches and graphs -/

/-- The links that the joints of a sketch make at a milestone.  Of two joints that have it at their
near end, the first one has the lower milestone at its far end. -/
def links (s : Sketch) (near far : Joint → MilestoneId)
    (hfar : ∀ {x y : Joint}, x.Before y → near x = near y → far x < far y) (id : MilestoneId) :
    Table Link where
  rows := (s.joints.filter fun x => near x == id).map fun x => ⟨far x, x.kind⟩
  ascending := by
    refine List.pairwise_map.2 ((s.joints_ascending.filter _).imp_of_mem fun hx hy h => ?_)
    have hx := eq_of_beq (List.mem_filter.1 hx).2
    have hy := eq_of_beq (List.mem_filter.1 hy).2
    exact hfar h (hx.trans hy.symm)

/-- The milestones that a milestone depends on. -/
def predecessors (s : Sketch) (id : MilestoneId) : Table Link :=
  s.links Joint.dependent Joint.prerequisite
    (fun h hsame => h.elim (fun hlt => absurd (hsame ▸ hlt) (Nat.lt_irrefl _)) And.right) id

/-- The milestones that depend on a milestone. -/
def successors (s : Sketch) (id : MilestoneId) : Table Link :=
  s.links Joint.prerequisite Joint.dependent
    (fun h hsame => h.elim (fun h => h) fun h => absurd (hsame ▸ h.2) (Nat.lt_irrefl _)) id

/-- A milestone of the sketch with its links. -/
def node (s : Sketch) (m : Milestone) : Node :=
  { milestone := m, predecessors := s.predecessors m.id, successors := s.successors m.id }

/-- The graph that is complete with what is in the sketch. -/
def graph (s : Sketch) : Graph :=
  { contractId := s.contractId
    nodes := ⟨s.milestones.toList.map s.node, List.pairwise_map.2 s.milestones.ascending⟩
    edges := s.edges }

/-- The joints of a graph, as the predecessors of its milestones tell them. -/
def jointsOf (g : Graph) : List Joint :=
  g.nodes.toList.flatMap fun n =>
    n.predecessors.toList.map fun l => ⟨n.milestone.id, l.id, l.kind⟩

theorem jointsOf_ascending (g : Graph) : (jointsOf g).Pairwise Joint.Before :=
  g.nodes.pairwise_flatMap (fun _ _ _ h => .inr ⟨rfl, h⟩) fun _ _ _ _ h => .inl h

/-- The sketch of a graph, to go on from there. -/
def ofGraph (g : Graph) : Sketch :=
  { contractId := g.contractId
    milestones := ⟨g.milestones, List.pairwise_map.2 g.nodes.ascending⟩
    joints := jointsOf g
    joints_ascending := jointsOf_ascending g
    edges := g.edges }

end Sketch

/-- The graph with one more dependency. -/
def Graph.withDependency (g : Graph) (e : Dependency) : Except GraphError Graph :=
  ((Sketch.ofGraph g).addDependency e).map Sketch.graph

end Milestones
