import Milestones.Proofs.Schedule.Timetable

/-!
# Slack is the room between the first and the last possible start

A plan that starts every milestone after its prerequisites, and finishes all of them in time, is
feasible.  The two passes compute the first and the last feasible plan.  Every other one lies
between them, milestone by milestone, and none finishes earlier than the total.  So the slack
of a milestone is the room that plans have for it.

Plans are compared on nanoseconds, where the sum of a start and a duration has no range to leave.

## Main definitions

* `Graph.Feasible`: the plans that keep to the links and to a bound.
* `Graph.Keeps`: the same of starts in nanoseconds, which may be out of the range of durations.

## Main statements

* `Graph.Timed.earliestStart_le_of_keeps`: no plan starts a milestone before it can start, whatever
  its bound.
* `Graph.Timed.le_latestStart_of_keeps`: a plan starts a milestone after it has to start by no more
  than its bound exceeds the total.
* `Graph.Timed.total_le_of_keeps`: no plan has a bound below the total.
* `Graph.compute_bounds_feasible`: a computed schedule bounds all plans within its total.
-/

namespace Milestones

namespace Graph

/-- Every milestone starts no earlier than zero and after its prerequisites, and finishes by the
bound. -/
structure Feasible (g : Graph) (bound : Duration) (start : MilestoneId → Duration) : Prop where
  zero_le : ∀ m, g.contains m = true → 0 ≤ (start m).nanos
  finish_le_start : ∀ a b, a ∈ g.prerequisites b →
    (start a).nanos + (g.duration a).nanos ≤ (start b).nanos
  finish_le_bound : ∀ m, g.contains m = true →
    (start m).nanos + (g.duration m).nanos ≤ bound.nanos

/-- A plan in nanoseconds, which may be out of the range of durations. -/
structure Keeps (g : Graph) (bound : Int) (start : MilestoneId → Int) : Prop where
  zero_le : ∀ m, g.contains m = true → 0 ≤ start m
  finish_le_start : ∀ a b, a ∈ g.prerequisites b → start a + (g.duration a).nanos ≤ start b
  finish_le_bound : ∀ m, g.contains m = true → start m + (g.duration m).nanos ≤ bound

theorem Feasible.keeps {g : Graph} {bound : Duration} {start : MilestoneId → Duration}
    (hs : g.Feasible bound start) : g.Keeps bound.nanos fun m => (start m).nanos :=
  ⟨hs.zero_le, hs.finish_le_start, hs.finish_le_bound⟩

namespace Timed

variable {g : Graph} {t : Timetable} (h : g.Timed t) (hg : g.Linked)
include h hg

/-- Starting as early as possible is feasible. -/
theorem feasible_earliestStart : g.Feasible t.total t.earliestStart := by
  constructor
  · intro m hm
    exact h.zero_le_earliestStart hg hm
  · intro a b hab
    rw [← h.earliestFinish_eq (hg.contains_of_mem_prerequisites hab).1]
    exact h.earliestFinish_le_earliestStart hg hab
  · intro m hm
    rw [← h.earliestFinish_eq hm]
    exact h.earliestFinish_le_total hg hm

/-- Starting as late as possible is feasible. -/
theorem feasible_latestStart : g.Feasible t.total t.latestStart := by
  constructor
  · intro m hm
    have hearliest := h.zero_le_earliestStart hg hm
    have hroom := h.zero_le_slack hg hm
    have hslack := h.slack_eq hm
    omega
  · intro a b hab
    have hstart := h.latestStart_eq (hg.contains_of_mem_prerequisites hab).1
    have hle := h.latestFinish_le_latestStart hg hab
    omega
  · intro m hm
    have hstart := h.latestStart_eq hm
    have hle := h.latestFinish_le_total hg hm
    omega

/-- No plan starts a milestone before it can start, whatever its bound. -/
theorem earliestStart_le_of_keeps {bound : Int} {start : MilestoneId → Int}
    (hs : g.Keeps bound start) {m : MilestoneId} (hm : g.contains m = true) :
    (t.earliestStart m).nanos ≤ start m := by
  refine h.isSequence.forward_induction (P := fun m => (t.earliestStart m).nanos ≤ start m)
    (fun m hm ih => ?_) hm
  rcases h.earliestStart_attained hm with ⟨-, hzero⟩ | ⟨p, hp, hstart⟩
  · rw [hzero]
    exact hs.zero_le m hm
  · have hbefore := ih p hp
    have hfinish := h.earliestFinish_eq (hg.contains_of_mem_prerequisites hp).1
    have hplan := hs.finish_le_start p m hp
    rw [hstart]
    omega

/-- A plan with a bound above the total may start a milestone later than it has to start, by as
much as the bound is above the total. -/
theorem le_latestStart_of_keeps {bound : Int} {start : MilestoneId → Int}
    (hs : g.Keeps bound start) {m : MilestoneId} (hm : g.contains m = true) :
    start m ≤ (t.latestStart m).nanos + (bound - t.total.nanos) := by
  refine h.isSequence.backward_induction hg
    (P := fun m => start m ≤ (t.latestStart m).nanos + (bound - t.total.nanos))
    (fun m hm ih => ?_) hm
  have hlatest := h.latestStart_eq hm
  rcases h.latestFinish_attained hm with ⟨-, htotal⟩ | ⟨b, hb, hfinish⟩
  · have hplan := hs.finish_le_bound m hm
    rw [← htotal]
    omega
  · have hafter := ih b hb
    have hplan := hs.finish_le_start m b (hg.mem_dependents_iff_mem_prerequisites.1 hb)
    rw [hfinish] at hlatest
    omega

/-- No plan has a bound below the total. -/
theorem total_le_of_keeps {bound : Int} (hzero : 0 ≤ bound) {start : MilestoneId → Int}
    (hs : g.Keeps bound start) : t.total.nanos ≤ bound := by
  rcases h.exists_sink hg with ⟨-, htotal⟩ | ⟨m, hm, -, htotal⟩
  · rw [htotal]
    exact hzero
  · have hstart := h.earliestStart_le_of_keeps hg hs hm
    have hfinish := h.earliestFinish_eq hm
    have hplan := hs.finish_le_bound m hm
    rw [← htotal]
    omega

end Timed

/-- A computed schedule holds the first and the last feasible plan within its total.  Every
feasible plan lies between them, no plan has a lower bound, and the slack of a milestone is the
distance of its first and its last start as well as of its first and its last finish. -/
theorem compute_bounds_feasible {g : Graph} (hg : g.Built) {s : Schedule}
    (h : Schedule.compute g = .ok s) :
    g.Feasible s.timetable.total s.timetable.earliestStart ∧
      g.Feasible s.timetable.total s.timetable.latestStart ∧
      (∀ start, g.Feasible s.timetable.total start → ∀ m, g.contains m = true →
        s.timetable.earliestStart m ≤ start m ∧ start m ≤ s.timetable.latestStart m) ∧
      (∀ bound start, .zero ≤ bound → bound < s.timetable.total → ¬g.Feasible bound start) ∧
      ∀ m, g.contains m = true → ∃ x, s.timetable.timing? m = some x ∧
        x.slack.nanos = x.latestStart.nanos - x.earliestStart.nanos ∧
        x.slack.nanos = x.latestFinish.nanos - x.earliestFinish.nanos ∧ .zero ≤ x.slack := by
  have ht := timed_of_compute hg.linked h
  refine ⟨ht.feasible_earliestStart hg.linked, ht.feasible_latestStart hg.linked, ?_, ?_, ?_⟩
  · intro start hs m hm
    have hlatest := ht.le_latestStart_of_keeps hg.linked hs.keeps hm
    rw [Int.sub_self, Int.add_zero] at hlatest
    exact ⟨ht.earliestStart_le_of_keeps hg.linked hs.keeps hm, hlatest⟩
  · intro bound start hzero hlt hs
    exact Int.not_le.2 hlt (ht.total_le_of_keeps hg.linked hzero hs.keeps)
  · intro m hm
    obtain ⟨x, hx⟩ := Timetable.exists_timing? ((ht.isSequence.mem_iff m).2 hm)
    have hstart := ht.slack_eq hm
    have hfinish := ht.slack_eq_finish hm
    have hroom := ht.zero_le_slack hg.linked hm
    simp only [Timetable.slack, Timetable.latestStart, Timetable.earliestStart,
      Timetable.earliestFinish, Timetable.latestFinish, Timetable.offset_eq hx]
      at hstart hfinish hroom
    exact ⟨x, hx, hstart, hfinish, hroom⟩

/-- The fork takes as long as its longer branch, and every plan for that starts the other one
within its slack. -/
theorem bounds_feasible_fork : fork.Built ∧
    ∃ s, Schedule.compute fork = .ok s ∧
      (∀ bound start, 0 ≤ bound → bound < 7 → ¬fork.Feasible bound start) ∧
      ∀ start, fork.Feasible 7 start → 0 ≤ start 2 ∧ start 2 ≤ 2 := by
  obtain ⟨s, hs, htimetable⟩ := compute_fork
  have hbuilt := built_of_ofRecords ofRecords_fork
  obtain ⟨-, -, hbetween, hleast, -⟩ := compute_bounds_feasible hbuilt hs
  rw [htimetable] at hbetween hleast
  exact ⟨hbuilt, s, hs, hleast, fun start hstart => hbetween start hstart 2 rfl⟩

end Graph

end Milestones
