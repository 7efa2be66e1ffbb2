import Milestones.Proofs.Schedule.Passes

/-!
# What a timetable says

Seen from outside, a timetable is a handful of offsets for each milestone.  They solve a system of
equations: the earliest offsets of a milestone follow from those of its prerequisites, the latest
from those of its dependents, and the two sides are joined by the total alone.  Everything else
about schedules is proved from the equations, without looking at how they were solved.

## Main definitions

* `Timetable.offset`: the offsets by milestone.
* `Graph.Timed`: the equations.

## Main statements

* `Graph.Timed.earliestFinish_le_earliestStart`, `Graph.Timed.latestFinish_le_latestStart`: the
  equations as bounds.
* `Graph.Timed.earliestStart_attained`, `Graph.Timed.latestFinish_attained`: every bound is
  attained.
* `Graph.Timed.earliestFinish_le_total`, `Graph.Timed.exists_sink`: the total is the latest of
  the earliest finishes.
* `Graph.Timed.earliestFinish_le_latestFinish`: nothing is late from the start.
-/

namespace Milestones

/-! ## Offsets -/

namespace Timetable

/-- An offset of a milestone.  Zero stands in for a milestone without a timing. -/
def offset (t : Timetable) (field : Timing → Duration) (id : MilestoneId) : Duration :=
  ((t.timing? id).map field).getD .zero

/-- When a milestone can start. -/
def earliestStart (t : Timetable) : MilestoneId → Duration := t.offset Timing.earliestStart

/-- When a milestone can finish. -/
def earliestFinish (t : Timetable) : MilestoneId → Duration := t.offset Timing.earliestFinish

/-- When a milestone has to start. -/
def latestStart (t : Timetable) : MilestoneId → Duration := t.offset Timing.latestStart

/-- When a milestone has to finish. -/
def latestFinish (t : Timetable) : MilestoneId → Duration := t.offset Timing.latestFinish

/-- How far a milestone can slip. -/
def slack (t : Timetable) : MilestoneId → Duration := t.offset Timing.slack

/-- How far a milestone can slip without moving another. -/
def freeSlack (t : Timetable) : MilestoneId → Duration := t.offset Timing.freeSlack

/-- The milestones with a timing, in the order of work. -/
def ids (t : Timetable) : List MilestoneId := t.timings.map Timing.milestoneId

theorem offset_eq {t : Timetable} {id : MilestoneId} {x : Timing} (h : t.timing? id = some x)
    (field : Timing → Duration) : t.offset field id = field x := by
  rw [offset, h]
  rfl

theorem timing?_eq_some_iff {t : Timetable} (ht : t.ids.Nodup) {id : MilestoneId} {x : Timing} :
    t.timing? id = some x ↔ x ∈ t.timings ∧ x.milestoneId = id :=
  find?_key_eq_some_iff ht

theorem exists_timing? {t : Timetable} {id : MilestoneId} (hid : id ∈ t.ids) :
    ∃ x, t.timing? id = some x := exists_find?_key hid

end Timetable

/-! ## The equations -/

/-- The offsets of a timetable solve the equations of both passes. -/
structure Graph.Timed (g : Graph) (t : Timetable) : Prop where
  isSequence : g.IsSequence t.ids
  zero_le_duration : ∀ {m}, g.contains m = true → 0 ≤ (g.duration m).nanos
  duration_eq : ∀ {m}, g.contains m = true → t.offset Timing.duration m = g.duration m
  earliestStart_eq : ∀ {m}, g.contains m = true →
    t.earliestStart m =
      (Duration.maximum? ((g.prerequisites m).map t.earliestFinish)).getD .zero
  earliestFinish_eq : ∀ {m}, g.contains m = true →
    (t.earliestFinish m).nanos = (t.earliestStart m).nanos + (g.duration m).nanos
  latestFinish_eq : ∀ {m}, g.contains m = true →
    t.latestFinish m = (Duration.minimum? ((g.dependents m).map t.latestStart)).getD t.total
  latestStart_eq : ∀ {m}, g.contains m = true →
    (t.latestStart m).nanos = (t.latestFinish m).nanos - (g.duration m).nanos
  slack_eq : ∀ {m}, g.contains m = true →
    (t.slack m).nanos = (t.latestStart m).nanos - (t.earliestStart m).nanos
  freeSlack_eq : ∀ {m}, g.contains m = true →
    (t.freeSlack m).nanos =
      ((Duration.minimum? ((g.dependents m).map t.earliestStart)).getD t.total).nanos -
        (t.earliestFinish m).nanos
  total_eq : t.total =
    (Duration.maximum? ((t.ids.filter fun m => (g.dependents m).isEmpty).map
      t.earliestFinish)).getD .zero

/-! ## The equations as bounds -/

namespace Graph.Timed

variable {g : Graph} {t : Timetable} (h : g.Timed t)
include h

/-- A milestone starts at zero or with the finish of a prerequisite. -/
theorem earliestStart_attained {m : MilestoneId} (hm : g.contains m = true) :
    g.prerequisites m = [] ∧ t.earliestStart m = .zero ∨
      ∃ p ∈ g.prerequisites m, t.earliestStart m = t.earliestFinish p := by
  rw [h.earliestStart_eq hm]
  exact (Duration.maximum?_getD_map _ _ _).2

/-- A milestone has to finish by the total or by the start of a dependent. -/
theorem latestFinish_attained {m : MilestoneId} (hm : g.contains m = true) :
    g.dependents m = [] ∧ t.latestFinish m = t.total ∨
      ∃ b ∈ g.dependents m, t.latestFinish m = t.latestStart b := by
  rw [h.latestFinish_eq hm]
  exact (Duration.minimum?_getD_map _ _ _).2

/-- A milestone can slip as far from its earliest finish as from its earliest start. -/
theorem slack_eq_finish {m : MilestoneId} (hm : g.contains m = true) :
    (t.slack m).nanos = (t.latestFinish m).nanos - (t.earliestFinish m).nanos := by
  have hslack := h.slack_eq hm
  have hearliest := h.earliestFinish_eq hm
  have hlatest := h.latestStart_eq hm
  omega

variable (hg : g.Linked)
include hg

/-- A milestone starts after its prerequisites. -/
theorem earliestFinish_le_earliestStart {a b : MilestoneId}
    (hab : a ∈ g.prerequisites b) :
    (t.earliestFinish a).nanos ≤ (t.earliestStart b).nanos := by
  rw [h.earliestStart_eq (hg.contains_of_mem_prerequisites hab).2]
  exact (Duration.maximum?_getD_map _ _ _).1 a hab

/-- A milestone has to finish before its dependents have to start. -/
theorem latestFinish_le_latestStart {a b : MilestoneId}
    (hab : a ∈ g.prerequisites b) :
    (t.latestFinish a).nanos ≤ (t.latestStart b).nanos := by
  have hba : b ∈ g.dependents a := hg.mem_dependents_iff_mem_prerequisites.2 hab
  rw [h.latestFinish_eq (hg.contains_of_mem_prerequisites hab).1]
  exact (Duration.minimum?_getD_map _ _ _).1 b hba

/-- No milestone can start before the schedule does. -/
theorem zero_le_earliestStart {m : MilestoneId} (hm : g.contains m = true) :
    0 ≤ (t.earliestStart m).nanos := by
  refine h.isSequence.forward_induction
    (P := fun m => 0 ≤ (t.earliestStart m).nanos) (fun m hm ih => ?_) hm
  rcases h.earliestStart_attained hm with ⟨-, hzero⟩ | ⟨p, hp, -⟩
  · simp [hzero, Duration.zero]
  · have hstart := ih p hp
    have hin := (hg.contains_of_mem_prerequisites hp).1
    have hfinish := h.earliestFinish_eq hin
    have hduration := h.zero_le_duration hin
    have hle := h.earliestFinish_le_earliestStart hg hp
    omega

/-- Every milestone can finish within the total. -/
theorem earliestFinish_le_total {m : MilestoneId} (hm : g.contains m = true) :
    (t.earliestFinish m).nanos ≤ t.total.nanos := by
  refine h.isSequence.backward_induction hg
    (P := fun m => (t.earliestFinish m).nanos ≤ t.total.nanos) (fun m hm ih => ?_) hm
  cases hdependents : g.dependents m with
  | nil =>
    have hsink : m ∈ t.ids.filter fun m => (g.dependents m).isEmpty := by
      simp [(h.isSequence.mem_iff m).2 hm, hdependents]
    rw [h.total_eq]
    exact (Duration.maximum?_getD_map _ _ _).1 m hsink
  | cons b rest =>
    have hb : b ∈ g.dependents m := by simp [hdependents]
    have hlater := ih b hb
    have hin := (hg.contains_of_mem_dependents hb).2
    have hfinish := h.earliestFinish_eq hin
    have hduration := h.zero_le_duration hin
    have hle := h.earliestFinish_le_earliestStart hg
      (hg.mem_dependents_iff_mem_prerequisites.1 hb)
    omega

theorem zero_le_total {m : MilestoneId} (hm : g.contains m = true) : 0 ≤ t.total.nanos := by
  have hstart := h.zero_le_earliestStart hg hm
  have hduration := h.zero_le_duration hm
  have hfinish := h.earliestFinish_eq hm
  have hle := h.earliestFinish_le_total hg hm
  omega

/-- Unless the graph is empty, some milestone without dependents finishes at the total. -/
theorem exists_sink :
    t.ids = [] ∧ t.total = .zero ∨
      ∃ m, g.contains m = true ∧ g.dependents m = [] ∧ t.earliestFinish m = t.total := by
  rcases (Duration.maximum?_getD_map (t.ids.filter fun m => (g.dependents m).isEmpty)
    t.earliestFinish .zero).2 with ⟨hsinks, hzero⟩ | ⟨m, hm, hmax⟩
  · refine .inl ⟨List.eq_nil_iff_forall_not_mem.2 fun m hm => ?_, h.total_eq.trans hzero⟩
    -- Going from dependent to dependent ends at a sink, so without one there is no milestone.
    refine h.isSequence.backward_induction hg (P := fun _ => False) (fun m hm ih => ?_)
      ((h.isSequence.mem_iff m).1 hm)
    cases hdependents : g.dependents m with
    | nil =>
      refine List.eq_nil_iff_forall_not_mem.1 hsinks m ?_
      simp [(h.isSequence.mem_iff m).2 hm, hdependents]
    | cons b rest => exact ih b (by simp [hdependents])
  · obtain ⟨hin, hsink⟩ := List.mem_filter.1 hm
    refine .inr ⟨m, (h.isSequence.mem_iff m).1 hin, ?_, ?_⟩
    · simpa using hsink
    · exact (h.total_eq.trans hmax).symm

/-- Every milestone can finish by the time it has to. -/
theorem earliestFinish_le_latestFinish {m : MilestoneId}
    (hm : g.contains m = true) :
    (t.earliestFinish m).nanos ≤ (t.latestFinish m).nanos := by
  refine h.isSequence.backward_induction hg
    (P := fun m => (t.earliestFinish m).nanos ≤ (t.latestFinish m).nanos)
    (fun m hm ih => ?_) hm
  rcases h.latestFinish_attained hm with ⟨-, htotal⟩ | ⟨b, hb, hlatest⟩
  · rw [htotal]
    exact h.earliestFinish_le_total hg hm
  · have hlater := ih b hb
    have hin := (hg.contains_of_mem_dependents hb).2
    have hfinish := h.earliestFinish_eq hin
    have hstart := h.latestStart_eq hin
    have hle := h.earliestFinish_le_earliestStart hg
      (hg.mem_dependents_iff_mem_prerequisites.1 hb)
    rw [hlatest]
    omega

/-- No milestone has to finish after the total. -/
theorem latestFinish_le_total {m : MilestoneId} (hm : g.contains m = true) :
    (t.latestFinish m).nanos ≤ t.total.nanos := by
  refine h.isSequence.backward_induction hg
    (P := fun m => (t.latestFinish m).nanos ≤ t.total.nanos) (fun m hm ih => ?_) hm
  rcases h.latestFinish_attained hm with ⟨-, htotal⟩ | ⟨b, hb, hlatest⟩
  · rw [htotal]
  · have hlater := ih b hb
    have hin := (hg.contains_of_mem_dependents hb).2
    have hstart := h.latestStart_eq hin
    have hduration := h.zero_le_duration hin
    rw [hlatest]
    omega

/-- No milestone has to start before it can. -/
theorem zero_le_slack {m : MilestoneId} (hm : g.contains m = true) :
    0 ≤ (t.slack m).nanos := by
  have hfinish := h.earliestFinish_le_latestFinish hg hm
  have hslack := h.slack_eq_finish hm
  omega

end Graph.Timed

end Milestones
