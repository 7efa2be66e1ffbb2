import Milestones.Proofs.Outcome
import Milestones.Proofs.Time.Instant
import Milestones.Progress.Trend

/-!
# Trends that leave the calendar

The width and the number of the buckets are watched, their ends are not.  The last bucket may end
long after the last reading, because it has the width of all the others.  So a trend can leave the
calendar although every reading is in it, and so is the present.

## Main definitions

* `Trend.LeavesCalendar`: the last bucket ends beyond the calendar.

## Main statements

* `Trend.points?_eq_none_iff`: only the end of the last bucket matters.
* `Trend.compute_eq_fault_iff`: a trend stops exactly if it leaves the calendar.
-/

namespace Milestones

open Outcome

namespace Trend

/-- The buckets leave the calendar exactly if the last of them does. -/
theorem points?_eq_none_iff (hashing : Hashing) (total : Nat) {width : Duration}
    (hwidth : 0 ≤ width.nanos) (count : Nat) (start : Instant) (latest : Table ProgressReading)
    (readings : List ProgressReading) :
    points? hashing total width count start latest readings = none ↔
      Instant.calendarEnd ≤ start.unixNanos + count * width.nanos := by
  induction count generalizing start latest readings with
  | zero =>
    have hstart := start.unixNanos_lt
    simp only [points?, Nat.cast_zero, Int.zero_mul, Int.add_zero]
    exact ⟨nofun, fun h => absurd hstart (Int.not_lt.2 h)⟩
  | succ count ih =>
    have hmore : 0 ≤ (count : Int) * width.nanos := Int.mul_nonneg (Int.natCast_nonneg _) hwidth
    rw [points?, Nat.cast_succ, Int.add_mul, Int.one_mul]
    cases hfinish : start.add? width with
    | none =>
      have hend := (Instant.add?_eq_none_iff hwidth).1 hfinish
      refine ⟨fun _ => ?_, fun _ => rfl⟩
      omega
    | some finish =>
      have hunix := ((Instant.add?_eq_some_iff hwidth).1 hfinish).1
      have hrest := ih finish
        ((readings.takeWhile fun r => r.recordedAt < finish).foldl Table.insert latest)
        (readings.drop (readings.takeWhile fun r => r.recordedAt < finish).length)
      rw [hunix] at hrest
      simp only [bind, Option.bind_some, Option.bind_eq_none_iff, reduceCtorEq, imp_false]
      rw [← Option.eq_none_iff_forall_ne_some, hrest]
      omega

/-- Not all the buckets from the first reading on have an end in the calendar, although there are
not too many of them. -/
def LeavesCalendar (milestones : List MilestoneId) (history : List ProgressReading)
    (width : Duration) (now : Instant) : Prop :=
  Duration.second ≤ width ∧
    ∃ first last, (readings milestones history).head? = some first ∧
      (readings milestones history).getLast? = some last ∧
        bucketCount width first.recordedAt (now.max last.recordedAt) ≤ maxBuckets ∧
          Instant.calendarEnd ≤ first.recordedAt.unixNanos +
            bucketCount width first.recordedAt (now.max last.recordedAt) * width.nanos

/-- A trend stops exactly if it leaves the calendar. -/
theorem compute_eq_fault_iff {milestones : List MilestoneId} {history : List ProgressReading}
    {width : Duration} {now : Instant} {hashing : Hashing} {f : Fault} :
    compute milestones history width now hashing = .error (.fault f) ↔
      f = .dateRange ∧ LeavesCalendar milestones history width now := by
  rw [compute, LeavesCalendar]
  by_cases hnarrow : width < .second
  · have hnot : ¬Duration.second ≤ width := Int.not_le.2 hnarrow
    simp [hnarrow, hnot, refuse]
  have hwide : Duration.second ≤ width := Int.not_lt.1 hnarrow
  have hwidth : 0 ≤ width.nanos := Int.le_trans (by decide) hwide
  simp only [hnarrow, if_false, hwide, true_and]
  cases hfirst : (readings milestones history).head? with
  | none => simp
  | some first =>
    cases hlast : (readings milestones history).getLast? with
    | none => simp
    | some last =>
      simp only [Option.some.injEq, exists_and_left, exists_eq_left']
      generalize bucketCount width first.recordedAt (now.max last.recordedAt) = count
      by_cases hmany : maxBuckets < count
      · simp [hmany, refuse, Nat.not_le.2 hmany]
      rw [if_neg hmany, ← points?_eq_none_iff hashing
        milestones.eraseDups.length hwidth count first.recordedAt .empty
        (readings milestones history)]
      cases points? hashing milestones.eraseDups.length width count first.recordedAt .empty
          (readings milestones history) with
      | none => simp [orFault, bind, Except.bind, Nat.not_lt.1 hmany, eq_comm]
      | some points => simp [orFault, bind, Except.bind]

end Trend

end Milestones
