import Milestones.Proofs.Graph.Collapse
import Milestones.Proofs.Schedule.AnyOrder

/-!
# Timings depend on durations and prerequisites alone

Sequence numbers and parallel links have a say in the order of work, and the order decides in which
sequence the passes go through the milestones.  But both passes solve the same equations along any
order, and in the equations there are only durations and prerequisites.  So a graph with the same
milestones, durations and prerequisites has the same timings, however its order differs.

Parallel records are a case of this.  They add to the links, which may close a cycle, but while
there is none they change no timing.

## Main definitions

* `Graph.SameConstraints`: graphs with the same durations and prerequisites.
* `Timetable.SameTimes`: timetables that differ in the order of their timings at most.

## Main statements

* `Graph.SameConstraints.timed`: what solves the equations of one graph solves those of the other.
* `Graph.SameConstraints.exists_sameTimes`: a schedule of one graph is a schedule of the other.
* `Graph.sameConstraints_of_parallel`: parallel records do not constrain.
* `Graph.compute_sameTimes`: what the timings depend on.
-/

namespace Milestones

open Outcome

/-- The graphs have the same milestones, each with the same duration and the same prerequisites. -/
structure Graph.SameConstraints (g g' : Graph) : Prop where
  contains_eq : ∀ id, g'.contains id = g.contains id
  duration_eq : ∀ id, g'.duration id = g.duration id
  mem_prerequisites_iff : ∀ a b, a ∈ g'.prerequisites b ↔ a ∈ g.prerequisites b

/-- The timetables have the same timings, maybe in another order, and agree in all totals. -/
structure Timetable.SameTimes (t t' : Timetable) : Prop where
  timings_perm : t'.timings.Perm t.timings
  timing?_eq : ∀ id, t'.timing? id = t.timing? id
  total_eq : t'.total = t.total
  criticalPathDuration_eq : t'.criticalPathDuration = t.criticalPathDuration
  slackTime_eq : t'.slackTime = t.slackTime

/-- Ascending links that constrain timing are told by their ends. -/
theorem map_filter_isPrerequisite_eq {links links' : List Link}
    (h : links.Pairwise fun l l' => l.id < l'.id) (h' : links'.Pairwise fun l l' => l.id < l'.id)
    (hmem : ∀ id, id ∈ (links'.filter Link.isPrerequisite).map Link.id ↔
      id ∈ (links.filter Link.isPrerequisite).map Link.id) :
    (links'.filter Link.isPrerequisite).map Link.id =
      (links.filter Link.isPrerequisite).map Link.id := by
  refine congrArg (List.map Link.id)
    (Table.eq_of_forall_mem_iff (h'.filter _) (h.filter _) fun l => ?_)
  obtain ⟨id, kind⟩ := l
  rw [List.mem_filter, List.mem_filter]
  refine and_congr_left fun hkind => ?_
  obtain rfl : kind = .prerequisite := eq_of_beq hkind
  rw [← Graph.mem_filter_isPrerequisite_iff, hmem, Graph.mem_filter_isPrerequisite_iff]

namespace Graph

theorem SameConstraints.refl (g : Graph) : g.SameConstraints g :=
  ⟨fun _ => rfl, fun _ => rfl, fun _ _ => Iff.rfl⟩

theorem SameConstraints.trans {g g₁ g₂ : Graph} (h : g.SameConstraints g₁)
    (h' : g₁.SameConstraints g₂) : g.SameConstraints g₂ where
  contains_eq id := (h'.contains_eq id).trans (h.contains_eq id)
  duration_eq id := (h'.duration_eq id).trans (h.duration_eq id)
  mem_prerequisites_iff a b := (h'.mem_prerequisites_iff a b).trans (h.mem_prerequisites_iff a b)

/-- The slack of a schedule adds up. -/
theorem ofNanos?_sum_slack_of_compute {g : Graph} (hg : g.Linked) {s : Schedule}
    (h : Schedule.compute g = .ok s) :
    Duration.ofNanos? (s.timetable.ids.map fun m => (s.timetable.slack m).nanos).sum =
      some s.timetable.slackTime := by
  obtain ⟨-, horder, -⟩ := compute_eq_ok h
  obtain ⟨t, _, ht, -, heq⟩ := exists_draft_of_compute h
  have hsum := ofNanos?_sum_slack_of_draft hg (isSequence_of_workOrder hg horder) ht
  rw [heq]
  exact hsum

/-! ## The same equations -/

namespace SameConstraints

variable {g g' : Graph} (h : g.SameConstraints g')
include h

theorem prerequisites_eq (id : MilestoneId) : g'.prerequisites id = g.prerequisites id :=
  map_filter_isPrerequisite_eq (g.predecessors_ascending id) (g'.predecessors_ascending id)
    fun a => h.mem_prerequisites_iff a id

theorem isSequence {ids : List MilestoneId} (hids : g.IsSequence ids) : g'.IsSequence ids where
  nodup := hids.nodup
  mem_iff id := by rw [h.contains_eq, hids.mem_iff]
  mem_of_mem_prerequisites before id after hsplit p hp :=
    hids.mem_of_mem_prerequisites before id after hsplit p ((h.mem_prerequisites_iff p id).1 hp)

variable (hg : g.Linked) (hg' : g'.Linked)
include hg hg'

theorem dependents_eq (id : MilestoneId) : g'.dependents id = g.dependents id := by
  refine map_filter_isPrerequisite_eq (g.successors_ascending id) (g'.successors_ascending id)
    fun b => ?_
  change b ∈ g'.dependents id ↔ b ∈ g.dependents id
  rw [hg'.mem_dependents_iff_mem_prerequisites, hg.mem_dependents_iff_mem_prerequisites,
    h.mem_prerequisites_iff]

/-- What solves the equations of one graph solves those of the other. -/
theorem timed {t : Timetable} (ht : g.Timed t) : g'.Timed t := by
  have hdependents := h.dependents_eq hg hg'
  constructor
  case isSequence => exact h.isSequence ht.isSequence
  all_goals simp only [h.contains_eq, h.duration_eq, h.prerequisites_eq, hdependents]
  case zero_le_duration => exact ht.zero_le_duration
  case duration_eq => exact ht.duration_eq
  case earliestStart_eq => exact ht.earliestStart_eq
  case earliestFinish_eq => exact ht.earliestFinish_eq
  case latestFinish_eq => exact ht.latestFinish_eq
  case latestStart_eq => exact ht.latestStart_eq
  case slack_eq => exact ht.slack_eq
  case freeSlack_eq => exact ht.freeSlack_eq
  case total_eq => exact ht.total_eq

/-- A schedule of one graph is a schedule of the other, which has an order of work of its own. -/
theorem exists_sameTimes {s : Schedule} (hs : Schedule.compute g = .ok s) (hacyclic : g'.Acyclic) :
    ∃ s', Schedule.compute g' = .ok s' ∧ s.timetable.SameTimes s'.timetable := by
  have ht := timed_of_compute hg hs
  have ht' := h.timed hg hg' ht
  obtain ⟨o, ho⟩ := (exists_workOrder_iff hg').2 hacyclic
  obtain ⟨hcontract, -⟩ := isWorkOrder_of_workOrder hg' ho
  have hseq := isSequence_of_workOrder hg' ho
  obtain ⟨t, htimetable, htimings, htotal, hlength, hslackTime⟩ :=
    ht'.exists_timetable hg' (ofNanos?_sum_slack_of_compute hg hs) hseq hcontract
  have hperm : o.ids.Perm s.timetable.ids := by
    refine (List.perm_ext_iff_of_nodup hseq.nodup ht.isSequence.nodup).2 fun id => ?_
    rw [hseq.mem_iff, ht'.isSequence.mem_iff]
  refine ⟨⟨g', o, t⟩, compute_of_timetable ho htimetable, ?_⟩
  refine
    { timings_perm := ?_
      timing?_eq := fun id => ?_
      total_eq := htotal
      criticalPathDuration_eq := hlength.trans (chain_of_compute hs).2.symm
      slackTime_eq := hslackTime }
  · rw [htimings, ht.timings_eq]
    exact hperm.map _
  · rw [Timetable.timing?, htimings]
    exact ht'.find?_map_timingOf hseq id

end SameConstraints

/-! ## Parallel records -/

/-- A parallel record does not constrain. -/
theorem sameConstraints_addDependency {g g' : Graph} {e : Dependency} (hkind : e.kind = .parallel)
    (h : g.addDependency e = .ok g') : g.SameConstraints g' where
  contains_eq := contains_addDependency h
  duration_eq id := by
    rw [duration, duration, milestone?, milestone?, get?_addDependency h]
    cases g.nodes.get? id <;> rfl
  mem_prerequisites_iff a b := by
    rw [Graph.mem_prerequisites_iff, Graph.mem_prerequisites_iff, predecessorKind?_addDependency h]
    split
    · rw [Option.some_inj, DependencyKind.onto_eq_prerequisite_iff, hkind]
      exact or_iff_right (by decide)
    · exact Iff.rfl

/-- Nor do several of them. -/
theorem sameConstraints_of_parallel {g g' : Graph} {es : List Dependency}
    (hkind : ∀ e ∈ es, e.kind = .parallel) (h : es.foldlM addDependency g = .ok g') :
    g.SameConstraints g' :=
  foldlM_invariant_of_mem g.SameConstraints
    (fun e he _ _ hsame hadd => hsame.trans (sameConstraints_addDependency (hkind e he) hadd))
    (SameConstraints.refl g) h

/-! ## Computed schedules -/

/-- A schedule has the same times as any other schedule of a graph with the same milestones,
durations and prerequisites.  If parallel records are added to the graph, it still has a schedule
unless they close a cycle, and the times are the same again. -/
theorem compute_sameTimes {g : Graph} (hg : g.Built) {s : Schedule}
    (h : Schedule.compute g = .ok s) :
    (∀ g' s', g'.Built → g.SameConstraints g' → Schedule.compute g' = .ok s' →
      s.timetable.SameTimes s'.timetable) ∧
    ∀ (es : List Dependency) g', (∀ e ∈ es, e.kind = .parallel) →
      es.foldlM addDependency g = .ok g' → g'.Acyclic →
      ∃ s', Schedule.compute g' = .ok s' ∧ s.timetable.SameTimes s'.timetable := by
  constructor
  · intro g' s' hg' hsame hs'
    have hacyclic : g'.Acyclic :=
      (exists_workOrder_iff hg'.linked).1 ⟨_, (compute_eq_ok hs').2.1⟩
    obtain ⟨s'', hs'', htimes⟩ := hsame.exists_sameTimes hg.linked hg'.linked h hacyclic
    cases hs''.symm.trans hs'
    exact htimes
  · intro es g' hkind hadd hacyclic
    have hg' : g'.Built :=
      foldlM_invariant Built (fun _ e _ hs he => hs.addDependency e he) hg hadd
    exact (sameConstraints_of_parallel hkind hadd).exists_sameTimes hg.linked hg'.linked h hacyclic

/-- The parallel link of the fork changes its order of work and no time. -/
theorem sameTimes_fork : looseFork.Built ∧ looseFork.SameConstraints fork ∧
    ∃ s s', Schedule.compute looseFork = .ok s ∧ s.order.ids = [4, 2, 1, 3] ∧
      Schedule.compute fork = .ok s' ∧ s'.order.ids = [2, 4, 1, 3] ∧
      s.timetable.SameTimes s'.timetable := by
  have hbuilt : looseFork.Built :=
    built_of_ofRecords (show ofRecords 1 forkMilestones (forkDependencies.take 2) = .ok _ from rfl)
  have hloose : Schedule.compute looseFork = .ok ⟨looseFork, ⟨1, [4, 2, 1, 3]⟩,
      { forkTimetable with timings :=
          [⟨4, 0, 0, 0, 7, 7, 7, 7⟩, ⟨2, 3, 0, 3, 2, 5, 2, 2⟩, ⟨1, 5, 0, 5, 0, 5, 0, 0⟩,
            ⟨3, 2, 5, 7, 5, 7, 0, 0⟩] }⟩ := by cbv
  have hadd : (forkDependencies.drop 2).foldlM addDependency looseFork = .ok fork := rfl
  have hparallel : ∀ e ∈ forkDependencies.drop 2, e.kind = .parallel := by decide
  have horder : fork.workOrder = .ok ⟨1, [2, 4, 1, 3]⟩ := by cbv
  have hacyclic : fork.Acyclic :=
    (exists_workOrder_iff (built_of_ofRecords ofRecords_fork).linked).1 ⟨_, horder⟩
  obtain ⟨s', hs', htimes⟩ :=
    (compute_sameTimes hbuilt hloose).2 _ fork hparallel hadd hacyclic
  refine ⟨hbuilt, sameConstraints_of_parallel hparallel hadd, _, s', hloose, rfl, hs', ?_, htimes⟩
  rw [← Except.ok.inj (horder.symm.trans (compute_eq_ok hs').2.1)]

end Graph

end Milestones
