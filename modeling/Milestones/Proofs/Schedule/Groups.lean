import Milestones.Proofs.Schedule.Timeline

/-!
# What goes along with what

The milestones that go along with a milestone are read off its links, not off the records.  A link
stands for all records that join two milestones in one direction, and if one of them is a
prerequisite, nothing is left of the others.  So a parallel record makes its two ends go along with
each other unless there is a prerequisite record for the same two in the same direction.  Then
neither of them shows the other.

## Main definitions

* `Graph.Joins`: some record of a kind joins two milestones in a direction.
* `Graph.Groups`: which milestones are shown to go along with each other.

## Main statements

* `Graph.linkKind?_eq_parallel_iff`: the parallel links, as said by the records.
* `Graph.mem_parallelGroup_iff`: what is left of the parallel records.
* `Graph.groups_of_built`: the groups of a graph and of its timelines.
* `Graph.not_mem_parallelGroup_doubled`: a parallel record that shows nowhere.
-/

namespace Milestones

/-- The identifiers of a table are those of the records that it is made of. -/
theorem Table.mem_ids_ofList {α : Type} {kind : RecordKind} [Identified α kind] {as : List α}
    {id : RecordId kind} : id ∈ (Table.ofList as).ids ↔ ∃ a ∈ as, recordId a = id := by
  rw [← Table.contains_iff, Table.contains, Table.get?_ofList, List.find?_isSome]
  simp only [List.mem_reverse, beq_iff_eq]

namespace Graph

/-! ## Parallel links -/

/-- Some record of this kind says that one milestone depends on the other. -/
def Joins (edges : List Dependency) (kind : DependencyKind) (a b : MilestoneId) : Prop :=
  ∃ e ∈ edges, e.milestoneId = a ∧ e.dependsOnId = b ∧ e.kind = kind

/-- A link is parallel if some record is and no record is a prerequisite. -/
theorem linkKind?_eq_parallel_iff {edges : List Dependency} {a b : MilestoneId} :
    linkKind? edges a b = some .parallel ↔
      Joins edges .parallel a b ∧ ¬Joins edges .prerequisite a b := by
  have hhard : linkKind? edges a b = some .prerequisite ↔ Joins edges .prerequisite a b := by
    rw [linkKind?_eq_prerequisite_iff]
    simp only [Joins, List.mem_map, Dependency.terms, Prod.mk.injEq]
  constructor
  · intro h
    have hnot : ¬Joins edges .prerequisite a b := fun hjoins => by
      rw [hhard.2 hjoins] at h
      cases h
    obtain ⟨e, he, ha, hb⟩ := exists_linkKind?_iff.1 ⟨_, h⟩
    cases hkind : e.kind with
    | prerequisite => exact absurd ⟨e, he, ha, hb, hkind⟩ hnot
    | parallel => exact ⟨⟨e, he, ha, hb, hkind⟩, hnot⟩
  · rintro ⟨⟨e, he, ha, hb, -⟩, hnot⟩
    obtain ⟨kind, hlink⟩ := exists_linkKind?_iff.2 ⟨e, he, ha, hb⟩
    cases kind with
    | prerequisite => exact absurd (hhard.1 hlink) hnot
    | parallel => exact hlink

variable {g : Graph}

/-- A milestone goes along with another one if a link between them is parallel. -/
theorem Linked.mem_parallelGroup_iff (hg : g.Linked) {x y : MilestoneId} :
    y ∈ g.parallelGroup x ↔
      Joins g.edges .parallel x y ∧ ¬Joins g.edges .prerequisite x y ∨
        Joins g.edges .parallel y x ∧ ¬Joins g.edges .prerequisite y x := by
  rw [← linkKind?_eq_parallel_iff, ← linkKind?_eq_parallel_iff, ← hg.predecessorKind?_eq,
    ← hg.successorKind?_eq, parallelGroup, Table.mem_ids_ofList]
  constructor
  · rintro ⟨l, hl, rfl⟩
    obtain ⟨hl, hkind⟩ := List.mem_filter.1 hl
    rw [← beq_iff_eq.1 hkind]
    exact (List.mem_append.1 hl).imp Graph.mem_predecessors_iff.1 Graph.mem_successors_iff.1
  · intro h
    refine ⟨⟨y, .parallel⟩, List.mem_filter.2 ⟨List.mem_append.2 ?_, rfl⟩, rfl⟩
    exact h.imp Graph.mem_predecessors_iff.2 Graph.mem_successors_iff.2

theorem parallelGroup_ascending (g : Graph) (x : MilestoneId) :
    (g.parallelGroup x).Pairwise (· < ·) :=
  List.pairwise_map.2 (Table.ascending _)

/-! ## Groups in a timeline -/

/-- A milestone goes along with those that a parallel record joins to it, in either direction,
unless a prerequisite record joins them in the same direction.  Both of them show it, and so do
their rows in a timeline. -/
structure Groups (g : Graph) : Prop where
  mem_iff : ∀ x y, y ∈ g.parallelGroup x ↔
    Joins g.edges .parallel x y ∧ ¬Joins g.edges .prerequisite x y ∨
      Joins g.edges .parallel y x ∧ ¬Joins g.edges .prerequisite y x
  symm : ∀ x y, y ∈ g.parallelGroup x ↔ x ∈ g.parallelGroup y
  mem_iff_of_not_joins : ∀ x y, ¬Joins g.edges .prerequisite x y →
    ¬Joins g.edges .prerequisite y x →
      (y ∈ g.parallelGroup x ↔ Joins g.edges .parallel x y ∨ Joins g.edges .parallel y x)
  ascending : ∀ x, (g.parallelGroup x).Pairwise (· < ·)
  rows : ∀ s, Schedule.compute g = .ok s → ∀ start,
    g.IsWorkOrder s.order.ids ∧
      (Timeline.ofSchedule s start).entries.map (fun e => (e.milestoneId, e.parallelWith)) =
        s.order.ids.map fun x => (x, g.parallelGroup x)

/-- In a graph that is built step by step, the groups are what the records say, as far as they are
not hidden by prerequisites. -/
theorem groups_of_built (hg : g.Built) : g.Groups := by
  have hiff := fun x y => hg.linked.mem_parallelGroup_iff (x := x) (y := y)
  refine
    { mem_iff := hiff
      symm := fun x y => ?_
      mem_iff_of_not_joins := fun x y hxy hyx => ?_
      ascending := g.parallelGroup_ascending
      rows := fun s h start => ?_ }
  · rw [hiff, hiff]
    exact or_comm
  · rw [hiff, and_iff_left hxy, and_iff_left hyx]
  · obtain ⟨rfl, horder, -⟩ := compute_eq_ok h
    refine ⟨(isWorkOrder_of_workOrder hg.linked horder).2, ?_⟩
    rw [← ids_of_compute hg.linked h,
      ← Timeline.map_milestoneId_entries start (timed_of_compute hg.linked h), List.map_map]
    refine List.map_congr_left fun e he => ?_
    rw [(Timeline.mem_entries he).2.2.2]
    rfl

/-- In the fork, the gate goes along with the second start. -/
theorem groups_fork : fork.Built ∧ fork.Groups ∧ fork.parallelGroup 2 = [4] ∧
    fork.parallelGroup 4 = [2] :=
  have hbuilt := built_of_ofRecords ofRecords_fork
  ⟨hbuilt, groups_of_built hbuilt, by decide, by decide⟩

/-! ## A parallel record that shows nowhere -/

/-- The second milestone goes along with the first, and also waits for it. -/
def doubledDependencies : List Dependency := [⟨1, 2, 1, .parallel⟩, ⟨2, 2, 1, .prerequisite⟩]

def doubled : Graph :=
  match ofRecords 1 (forkMilestones.take 2) doubledDependencies with
  | .ok g => g
  | .error _ => { contractId := 1 }

theorem ofRecords_doubled :
    ofRecords 1 (forkMilestones.take 2) doubledDependencies = .ok doubled := rfl

/-- A parallel record joins the two, but neither goes along with the other, and no row shows it. -/
theorem not_mem_parallelGroup_doubled : doubled.Built ∧
    doubled.contains 1 = true ∧ doubled.contains 2 = true ∧
      ¬(1 ∈ doubled.parallelGroup 2 ↔
        Joins doubled.edges .parallel 2 1 ∨ Joins doubled.edges .parallel 1 2) ∧
        ∃ s, Schedule.compute doubled = .ok s ∧
          (Timeline.ofSchedule s none).entries.map (fun e => (e.milestoneId, e.parallelWith)) =
            [(1, []), (2, [])] := by
  have hjoins : Joins doubled.edges .parallel 2 1 := ⟨⟨1, 2, 1, .parallel⟩, by decide⟩
  have hnot : 1 ∉ doubled.parallelGroup 2 := by decide
  obtain ⟨s, hs⟩ : ∃ s, Schedule.compute doubled = .ok s := ⟨_, by cbv⟩
  have hrows : (Schedule.compute doubled).map (fun s =>
      (Timeline.ofSchedule s none).entries.map fun e => (e.milestoneId, e.parallelWith)) =
        .ok [(1, []), (2, [])] := by cbv
  rw [hs] at hrows
  exact ⟨built_of_ofRecords ofRecords_doubled, by decide, by decide,
    fun h => hnot (h.2 (.inl hjoins)), s, hs, Except.ok.inj hrows⟩

end Graph

end Milestones
