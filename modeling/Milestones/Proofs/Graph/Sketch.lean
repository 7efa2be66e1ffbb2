import Milestones.Graph.Sketch
import Milestones.Proofs.Graph.Extension
import Milestones.Proofs.Graph.Listing
import Milestones.Proofs.Keyed

/-!
# Sketches lose nothing

The links of a graph say less than its records: they do not tell how many records there were, which
kinds they had beside the strongest one, and in which order they came.  Nothing of this makes a
difference for what can still be added.  The joints of a sketch can be read off the links of its
graph, a further record meets the same kind in both, and it is the stronger one of the two that
stays.  So a graph can be taken up again at any time, and the result is the graph that would have
been made of all the records at once.

## Main definitions

* `Joint.ends`, `jointKind?`: the joint between two milestones, and its kind.

## Main statements

* `jointKind?_weave`: the kind of every joint after a record.
* `Sketch.graph_addDependency`, `Sketch.graph_addMilestone`: a sketch and its graph grow alike.
* `Sketch.graph_ofGraph`: the sketch of a graph is a sketch of that graph.
* `Graph.ofRecords_withDependency`: one more dependency, now or from the start.
-/

namespace Milestones

open Outcome

/-! ## Joints -/

/-- Who depends on whom. -/
def Joint.ends (x : Joint) : MilestoneId × MilestoneId := (x.dependent, x.prerequisite)

/-- The kind of the joint from a dependent to a prerequisite. -/
def jointKind? (joints : List Joint) (a b : MilestoneId) : Option DependencyKind :=
  (joints.find? fun x => x.ends = (a, b)).map Joint.kind

section Joints

variable {joints : List Joint} {x : Joint} {a b : MilestoneId}

theorem Joint.Before.ends_ne {x y : Joint} (h : x.Before y) : x.ends ≠ y.ends := by
  intro hends
  obtain ⟨hdependent, hprerequisite⟩ := Prod.mk.inj hends
  rcases h with hlt | ⟨-, hlt⟩
  · exact Nat.lt_irrefl _ (hdependent ▸ hlt)
  · exact Nat.lt_irrefl _ (hprerequisite ▸ hlt)

/-- Ascending joints have a kind between two milestones if one of them is there with it. -/
theorem jointKind?_eq_some_iff (h : joints.Pairwise Joint.Before) {kind : DependencyKind} :
    jointKind? joints a b = some kind ↔ ⟨a, b, kind⟩ ∈ joints := by
  have hnodup : (joints.map Joint.ends).Nodup := List.pairwise_map.2 (h.imp Joint.Before.ends_ne)
  rw [jointKind?, Option.map_eq_some_iff]
  constructor
  · rintro ⟨x, hx, rfl⟩
    obtain ⟨hmem, hends⟩ := (find?_key_eq_some_iff hnodup).1 hx
    obtain ⟨rfl, rfl⟩ := Prod.mk.inj hends
    exact hmem
  · intro hmem
    exact ⟨_, (find?_key_eq_some_iff hnodup).2 ⟨hmem, rfl⟩, rfl⟩

theorem jointKind?_cons (y : Joint) :
    jointKind? (y :: joints) a b = if y.ends = (a, b) then some y.kind else jointKind? joints a b := by
  rw [jointKind?, List.find?_cons]
  by_cases h : y.ends = (a, b) <;> simp [h, jointKind?]

/-- Nothing that comes later has the ends of a joint. -/
theorem jointKind?_eq_none_of_before (h : ∀ y ∈ joints, x.Before y) :
    jointKind? joints x.dependent x.prerequisite = none := by
  rw [jointKind?, Option.map_eq_none_iff, List.find?_eq_none]
  intro y hy hends
  exact (h y hy).ends_ne (of_decide_eq_true hends).symm

/-- A joint that is woven in meets the kind that its ends are joined with, and no other. -/
theorem jointKind?_weave (h : joints.Pairwise Joint.Before) (x : Joint) (a b : MilestoneId) :
    jointKind? (x.weave joints) a b =
      if x.ends = (a, b) then some (x.kind.onto (jointKind? joints a b))
      else jointKind? joints a b := by
  induction joints with
  | nil => rw [Joint.weave, jointKind?_cons]; rfl
  | cons y rest ih =>
    obtain ⟨hy, hrest⟩ := List.pairwise_cons.1 h
    rw [Joint.weave]
    split
    · -- The new joint comes first, so its ends were not joined.
      rename_i hxy
      rw [jointKind?_cons]
      split
      · rename_i hends
        obtain ⟨rfl, rfl⟩ := Prod.mk.inj hends
        rw [jointKind?_eq_none_of_before fun z hz => ?_]
        · rfl
        · rcases List.mem_cons.1 hz with rfl | hz
          · exact hxy
          · exact hxy.trans (hy z hz)
      · rfl
    · split
      · -- The first joint stays, and it has other ends.
        rename_i hyx
        rw [jointKind?_cons, jointKind?_cons, ih hrest]
        by_cases hends : y.ends = (a, b)
        · rw [if_pos hends, if_pos hends, if_neg fun h => hyx.ends_ne (hends.trans h.symm)]
        · rw [if_neg hends, if_neg hends]
      · -- The first joint has the same ends and takes the stronger kind.
        rename_i hxy hyx
        obtain ⟨hdependent, hprerequisite⟩ := Joint.ends_eq_of_not_before hxy hyx
        have hends : x.ends = y.ends := Prod.ext hdependent hprerequisite
        rw [jointKind?_cons, jointKind?_cons, hends]
        change (if y.ends = (a, b) then _ else _) = _
        split <;> rfl

end Joints

/-- Graphs are equal if they have the same milestones with the same links, and list the same
records. -/
theorem Graph.eq_of_get? {g g' : Graph} (hcontract : g'.contractId = g.contractId)
    (hnodes : ∀ id, g'.nodes.get? id = g.nodes.get? id) (hedges : g'.edges = g.edges) : g' = g := by
  cases g
  cases g'
  cases hcontract
  cases Table.ext_get? hnodes
  cases hedges
  rfl

namespace Sketch

variable {s : Sketch}

/-! ## The graph of a sketch -/

theorem kind_predecessors (s : Sketch) (id b : MilestoneId) :
    ((s.predecessors id).get? b).map Link.kind = jointKind? s.joints id b := by
  simp [predecessors, links, Table.get?, jointKind?, Joint.ends, Function.comp_def, recordId]

theorem kind_successors (s : Sketch) (id b : MilestoneId) :
    ((s.successors id).get? b).map Link.kind = jointKind? s.joints b id := by
  simp [successors, links, Table.get?, jointKind?, Joint.ends, Function.comp_def, recordId,
    and_comm]

@[simp] theorem contractId_graph (s : Sketch) : s.graph.contractId = s.contractId := rfl

@[simp] theorem get?_graph (s : Sketch) (id : MilestoneId) :
    s.graph.nodes.get? id = (s.milestones.get? id).map s.node :=
  List.find?_map ..

@[simp] theorem contains_graph (s : Sketch) (id : MilestoneId) :
    s.graph.nodes.contains id = s.milestones.contains id := by
  rw [Table.contains, get?_graph, Option.isSome_map]
  rfl

/-! ## A sketch and its graph grow alike -/

/-- What adding a dependency does. -/
theorem addDependency_eq_ok {s' : Sketch} {e : Dependency} (h : s.addDependency e = .ok s') :
    s.milestones.contains e.milestoneId = true ∧ s.milestones.contains e.dependsOnId = true ∧
      s'.contractId = s.contractId ∧ s'.milestones = s.milestones ∧
      s'.joints = Joint.weave ⟨e.milestoneId, e.dependsOnId, e.kind⟩ s.joints ∧
      s'.edges = s.edges ++ [e] := by
  rw [addDependency] at h
  split at h
  · cases h
  · rename_i hdependent
    split at h
    · cases h
    · rename_i hprerequisite
      cases h
      exact ⟨by simpa using hdependent, by simpa using hprerequisite, rfl, rfl, rfl, rfl⟩

/-- What adding a milestone does. -/
theorem addMilestone_eq_ok {s' : Sketch} {m : Milestone} (h : s.addMilestone m = .ok s') :
    m.contractId = s.contractId ∧ s.milestones.contains m.id = false ∧
      s' = { s with milestones := s.milestones.insert m } := by
  rw [addMilestone] at h
  split at h
  · cases h
  · rename_i hcontract
    split at h
    · cases h
    · rename_i hnew
      cases h
      exact ⟨not_not.1 hcontract, Bool.eq_false_iff.2 hnew, rfl⟩

/-- What a further record does to the links at one of its ends. -/
theorem links_weave {links links' : Table Link} {joint : Link} {p : Prop} [Decidable p]
    (h : ∀ id, (links'.get? id).map Link.kind =
      if p ∧ joint.id = id then some (joint.kind.onto ((links.get? id).map Link.kind))
      else (links.get? id).map Link.kind) :
    links' = if p then addLink links joint else links := by
  refine links_eq_of_kind fun id => ?_
  rw [h]
  by_cases hp : p
  · rw [if_pos hp, get?_addLink]
    by_cases hid : joint.id = id
    · rw [if_pos ⟨hp, hid⟩, if_pos hid, Option.map_some]
    · rw [if_neg fun h => hid h.2, if_neg hid]
  · rw [if_neg hp, if_neg fun h => hp h.1]

/-- A joint that is woven in is a link to its prerequisite. -/
theorem predecessors_of_weave {s s' : Sketch} {x : Joint} (h : s'.joints = x.weave s.joints)
    (id : MilestoneId) :
    s'.predecessors id =
      if x.dependent = id then addLink (s.predecessors id) ⟨x.prerequisite, x.kind⟩
      else s.predecessors id := by
  refine links_weave fun b => ?_
  rw [kind_predecessors, kind_predecessors, h, jointKind?_weave s.joints_ascending]
  simp only [Joint.ends, Prod.mk.injEq]

/-- A joint that is woven in is a link to its dependent. -/
theorem successors_of_weave {s s' : Sketch} {x : Joint} (h : s'.joints = x.weave s.joints)
    (id : MilestoneId) :
    s'.successors id =
      if x.prerequisite = id then addLink (s.successors id) ⟨x.dependent, x.kind⟩
      else s.successors id := by
  refine links_weave fun b => ?_
  rw [kind_successors, kind_successors, h, jointKind?_weave s.joints_ascending]
  simp only [Joint.ends, Prod.mk.injEq, and_comm]

/-- A further record makes of the graph of a sketch what it makes of the sketch. -/
theorem graph_addDependency (s : Sketch) (e : Dependency) :
    s.graph.addDependency e = (s.addDependency e).map graph := by
  cases hs : s.addDependency e with
  | error r =>
    rw [addDependency] at hs
    rw [Graph.addDependency, contains_graph, contains_graph]
    split_ifs at hs with hdependent hprerequisite
    · cases hs
      rw [if_pos hdependent]
      rfl
    · cases hs
      rw [if_neg hdependent, if_pos hprerequisite]
      rfl
  | ok s' =>
    obtain ⟨hdependent, hprerequisite, hcontract, hmilestones, hjoints, hedges⟩ :=
      addDependency_eq_ok hs
    obtain ⟨g, hg⟩ := Graph.exists_addDependency (g := s.graph) (e := e)
      ((contains_graph s _).trans hdependent) ((contains_graph s _).trans hprerequisite)
    rw [hg]
    obtain ⟨-, -, hgraph⟩ := Graph.addDependency_eq_ok hg
    refine congrArg Except.ok (Graph.eq_of_get? ?_ (fun id => ?_) ?_)
    · rw [hgraph]
      exact hcontract.symm
    · rw [Graph.get?_addDependency hg, get?_graph, get?_graph, hmilestones, Option.map_map]
      refine Option.map_congr fun m hm => ?_
      obtain rfl : m.id = id := Table.recordId_of_get? hm
      simp only [Function.comp_apply, node, predecessors_of_weave hjoints, successors_of_weave hjoints]
    · rw [hgraph]
      exact hedges.symm

/-- A milestone has no links as long as nothing is joined. -/
theorem node_of_joints_eq_nil (h : s.joints = []) (m : Milestone) : s.node m = { milestone := m } := by
  have hnone : ∀ near far hfar id, s.links near far hfar id = .empty := by
    intro near far hfar id
    refine Table.ext ?_
    change (s.joints.filter _).map _ = []
    rw [h]
    rfl
  rw [node, predecessors, successors, hnone, hnone]

/-- Before anything is joined, a further milestone makes of the graph of a sketch what it makes of
the sketch. -/
theorem graph_addMilestone (h : s.joints = []) (m : Milestone) :
    s.graph.addMilestone m = (s.addMilestone m).map graph := by
  rw [Graph.addMilestone, contractId_graph, contains_graph]
  cases hs : s.addMilestone m with
  | error r =>
    rw [addMilestone] at hs
    split_ifs at hs with hcontract hcontains
    · cases hs
      rw [if_pos hcontract]
      rfl
    · cases hs
      rw [if_neg hcontract, if_pos hcontains]
      rfl
  | ok s' =>
    obtain ⟨hcontract, hnew, rfl⟩ := addMilestone_eq_ok hs
    rw [if_neg (not_not_intro hcontract), if_neg (Bool.eq_false_iff.1 hnew)]
    refine congrArg Except.ok (Graph.eq_of_get? rfl (fun id => ?_) rfl)
    rw [Table.get?_insert, get?_graph, get?_graph, Table.get?_insert]
    change (if m.id = id then _ else _) = (if m.id = id then _ else _ : Option Milestone).map s.node
    split
    · rw [Option.map_some, node_of_joints_eq_nil h]
    · rfl

/-- A sketch and its graph are made of the same records. -/
theorem graph_ofRecords (c : ContractId) (ms : List Milestone) (es : List Dependency) :
    (ofRecords c ms es).map graph = Graph.ofRecords c ms es := by
  have hmilestones := foldlM_comm_of_invariant (h := graph) (fun s => s.joints = [])
    (fun _ m hs => graph_addMilestone hs m) (fun s m s' hs h => by
      obtain ⟨-, -, rfl⟩ := addMilestone_eq_ok h
      exact hs) ms (s := { contractId := c }) rfl
  rw [Graph.ofRecords, ofRecords, ← bind_map_comm fun s _ => ?_]
  · rw [← hmilestones]
    rfl
  · exact foldlM_comm_of_invariant (fun _ => True) (fun s e _ => graph_addDependency s e)
      (fun _ _ _ _ _ => trivial) es trivial

/-! ## The sketch of a graph -/

/-- The joints of a graph are the links to the predecessors of its milestones. -/
theorem jointKind?_jointsOf (g : Graph) (a b : MilestoneId) :
    jointKind? (jointsOf g) a b = g.predecessorKind? a b := by
  ext kind
  change jointKind? (jointsOf g) a b = some kind ↔
    g.predecessorKind? a (⟨b, kind⟩ : Link).id = some (⟨b, kind⟩ : Link).kind
  rw [jointKind?_eq_some_iff (jointsOf_ascending g), ← Graph.mem_predecessors_iff,
    Graph.predecessors, Graph.mem_neighbours_iff Node.predecessors, jointsOf, List.mem_flatMap]
  refine exists_congr fun n => and_congr_right fun _ => ?_
  rw [List.mem_map]
  constructor
  · rintro ⟨l, hl, heq⟩
    cases heq
    exact ⟨rfl, hl⟩
  · rintro ⟨rfl, hl⟩
    exact ⟨_, hl, rfl⟩

/-- The sketch of a graph links a milestone as the graph does. -/
theorem node_ofGraph {g : Graph} (hg : g.Linked) {id : MilestoneId} {n : Node}
    (hn : g.nodes.get? id = some n) : (ofGraph g).node n.milestone = n := by
  obtain rfl : n.milestone.id = id := Table.recordId_of_get? hn
  have hpredecessors : (ofGraph g).predecessors n.milestone.id = n.predecessors := by
    refine links_eq_of_kind fun b => ?_
    rw [kind_predecessors]
    change jointKind? (jointsOf g) _ _ = _
    rw [jointKind?_jointsOf, Graph.predecessorKind?, hn]
    rfl
  have hsuccessors : (ofGraph g).successors n.milestone.id = n.successors := by
    refine links_eq_of_kind fun b => ?_
    rw [kind_successors]
    change jointKind? (jointsOf g) _ _ = _
    rw [jointKind?_jointsOf, ← hg.successorKind?_eq_predecessorKind?, Graph.successorKind?, hn]
    rfl
  rw [node, hpredecessors, hsuccessors]

/-- The sketch of a graph is a sketch of that graph. -/
theorem graph_ofGraph {g : Graph} (hg : g.Linked) : (ofGraph g).graph = g := by
  refine Graph.eq_of_get? rfl (fun id => ?_) rfl
  have hmilestone : (ofGraph g).milestones.get? id = (g.nodes.get? id).map Node.milestone :=
    List.find?_map ..
  rw [get?_graph, hmilestone]
  cases hn : g.nodes.get? id with
  | none => rfl
  | some n => exact congrArg some (node_ofGraph hg hn)

end Sketch

namespace Graph

/-! ## One more dependency -/

/-- A graph takes one more dependency by way of its sketch as it would take it itself. -/
theorem Linked.withDependency_eq {g : Graph} (hg : g.Linked) (e : Dependency) :
    g.withDependency e = g.addDependency e := by
  rw [withDependency, ← Sketch.graph_addDependency, Sketch.graph_ofGraph hg]

/-- A graph that is made of records and then gets one more dependency is the graph of the records
with that dependency at their end, or there is none for the same reason.  The graph of any records
is the one that is drawn when all of them are in a sketch. -/
theorem ofRecords_withDependency (c : ContractId) (ms : List Milestone) (es : List Dependency)
    (e : Dependency) :
    (ofRecords c ms es >>= fun g => g.withDependency e) = ofRecords c ms (es ++ [e]) ∧
      ∀ es', ofRecords c ms es' = (Sketch.ofRecords c ms es').map Sketch.graph := by
  refine ⟨?_, fun es' => (Sketch.graph_ofRecords c ms es').symm⟩
  rw [ofRecords_append_singleton]
  cases hg : ofRecords c ms es with
  | error r => rfl
  | ok g => exact (built_of_ofRecords hg).linked.withDependency_eq e

/-- A parallel link between two milestones becomes a prerequisite, and both records are listed. -/
example : (ofRecords 1 tangleMilestones [⟨1, 2, 1, .parallel⟩] >>= fun g =>
      g.withDependency ⟨3, 2, 1, .prerequisite⟩).map (fun g => (g.links, g.edges.map Dependency.id)) =
    .ok ([(1, 2, .prerequisite)], [1, 3]) := by
  decide

end Graph

end Milestones
