import Mathlib.Data.Set.Card
import Milestones.Proofs.Progress.Span
import Milestones.Proofs.Table

/-!
# What the buckets show

The buckets of a trend are filled in one pass over the sorted readings, with a table that is carried
from one bucket to the next.  What a bucket shows in the end can be read off the journal at once,
without sorting it and without the other buckets: the readings within its period, and for every
milestone the most recent reading before its end, where the later one in the journal counts among
readings of one time.

Sorting keeps the order of readings of one time, and this is what makes the last reading of a
milestone in the sorted list the most recent one in the journal.  The buckets follow each other
without a gap, so that every reading before the end of the last one is within the period of one of
them.  This is every reading, unless a leap second is left out when the buckets are counted.

## Main definitions

* `Trend.mostRecent?`: the most recent reading of a milestone before some time.
* `Trend.bucket`: a bucket read off all the readings at once.
* `TrendPoint.Reports`: what a bucket shows of a journal.

## Main statements

* `Trend.getLast?_filter_mergeSort`: the last of some sorted readings.
* `Trend.eq_bucket_of_points?`: one pass fills the buckets.
* `Trend.sum_updates_of_points?`: no reading before the end of the last bucket is lost.
* `Trend.compute_buckets`: the buckets of a trend.
-/

namespace Milestones

open Outcome

/-- Among the records of a table, those are counted by their identifiers that pass a test. -/
theorem Table.countP_toList {α : Type} {kind : RecordKind} [Identified α kind] (t : Table α)
    (test : α → Bool) : t.toList.countP test =
      {id | ∃ a, t.get? id = some a ∧ test a = true}.ncard := by
  have hnodup : ((t.toList.filter test).map recordId).Nodup :=
    t.nodup_ids.sublist (List.filter_sublist.map recordId)
  have hset : {id | ∃ a, t.get? id = some a ∧ test a = true} =
      ↑((t.toList.filter test).map recordId).toFinset := by
    ext id
    simp only [Set.mem_ofPred_eq, List.coe_toFinset, List.mem_map, List.mem_filter,
      get?_eq_some_iff]
    constructor
    · rintro ⟨a, ⟨ha, hid⟩, htest⟩
      exact ⟨a, ⟨ha, htest⟩, hid⟩
    · rintro ⟨a, ⟨ha, htest⟩, hid⟩
      exact ⟨a, ⟨ha, hid⟩, htest⟩
  rw [hset, Set.ncard_coe_finset, List.toFinset_card_of_nodup hnodup, List.length_map,
    List.countP_eq_length_filter]

namespace Trend

variable {milestones : List MilestoneId} {history : List ProgressReading} {width : Duration}
  {hashing : Hashing} {now start stop finish : Instant} {t : Trend}

/-! ## The most recent reading -/

/-- The most recent reading of a milestone before some time; among readings of one time, the later
one in the journal. -/
def mostRecent? (history : List ProgressReading) (finish : Instant) (id : MilestoneId) :
    Option ProgressReading :=
  let own := history.filter fun r => r.milestoneId == id && decide (r.recordedAt < finish)
  (own.filter fun r => own.all fun x => x.recordedAt ≤ r.recordedAt).getLast?

/-- Readings of one time have the same order in a sorted list. -/
theorem filter_mergeSort {rs : List ProgressReading} {keep : ProgressReading → Bool}
    (h : ∀ a ∈ rs.filter keep, ∀ b ∈ rs.filter keep, a.recordedAt ≤ b.recordedAt) :
    (rs.mergeSort fun a b => a.recordedAt ≤ b.recordedAt).filter keep = rs.filter keep := by
  have honetime :
      (rs.filter keep).Pairwise fun a b => decide (a.recordedAt ≤ b.recordedAt) = true :=
    List.pairwise_of_forall_mem_list fun a ha b hb => decide_eq_true (h a ha b hb)
  have hkept := (List.sublist_mergeSort le_recordedAt_trans le_recordedAt_total honetime
    List.filter_sublist).filter keep
  simp only [List.filter_filter, Bool.and_self] at hkept
  exact (hkept.eq_of_length ((List.mergeSort_perm rs _).filter keep).length_eq.symm).symm

/-- Of some readings, the last one in a sorted list is the last one of the most recent of them. -/
theorem getLast?_filter_mergeSort (rs : List ProgressReading) (own : ProgressReading → Bool) :
    ((rs.mergeSort fun a b => a.recordedAt ≤ b.recordedAt).filter own).getLast? =
      ((rs.filter own).filter fun r =>
        (rs.filter own).all fun x => x.recordedAt ≤ r.recordedAt).getLast? := by
  let most (r : ProgressReading) : Bool := (rs.filter own).all fun x => x.recordedAt ≤ r.recordedAt
  let sorted := rs.mergeSort fun a b => a.recordedAt ≤ b.recordedAt
  have hmost : ∀ {r}, most r = true ↔ ∀ x ∈ rs.filter own, x.recordedAt ≤ r.recordedAt := by
    intro r
    simp only [most, List.all_eq_true, decide_eq_true_eq]
  -- The most recent readings are all of one time.
  have hsame : (sorted.filter own).filter most = (rs.filter own).filter most := by
    rw [List.filter_filter, List.filter_filter]
    refine filter_mergeSort fun a ha b hb => ?_
    rw [← List.filter_filter] at ha hb
    exact hmost.1 (List.mem_filter.1 hb).2 a (List.mem_filter.1 ha).1
  change (sorted.filter own).getLast? = ((rs.filter own).filter most).getLast?
  rw [← hsame]
  -- The last one of all is among them.
  cases hlast : (sorted.filter own).getLast? with
  | none =>
    rw [List.getLast?_eq_none_iff.1 hlast]
    rfl
  | some last =>
    have hmax : most last = true := hmost.2 fun x hx =>
      recordedAt_le_of_getLast? ((pairwise_mergeSort rs).filter own) hlast
        (((List.mergeSort_perm rs _).filter own).mem_iff.2 hx)
    obtain ⟨before, hbefore⟩ := List.getLast?_eq_some_iff.1 hlast
    rw [hbefore, List.filter_append, List.filter_singleton, hmax]
    exact List.getLast?_concat.symm

/-- The readings of one milestone are among those of several, or there are none of them. -/
theorem filter_ofMilestones (milestones : List MilestoneId) (history : List ProgressReading)
    (finish : Instant) (id : MilestoneId) :
    (ofMilestones milestones history).filter
        (fun r => r.milestoneId == id && decide (r.recordedAt < finish)) =
      if id ∈ milestones then
        history.filter fun r => r.milestoneId == id && decide (r.recordedAt < finish)
      else [] := by
  rw [ofMilestones, List.filter_filter]
  split
  · rename_i hid
    refine List.filter_congr fun r _ => ?_
    rw [Bool.and_eq_left_iff_imp]
    intro hr
    rwa [eq_of_beq (Bool.and_eq_true_iff.1 hr).1, List.contains_iff_mem]
  · rename_i hid
    refine List.filter_eq_nil_iff.2 fun r _ hr => ?_
    obtain ⟨hr, hmem⟩ := Bool.and_eq_true_iff.1 hr
    rw [eq_of_beq (Bool.and_eq_true_iff.1 hr).1, List.contains_iff_mem] at hmem
    exact hid hmem

/-- Before some time, the last reading of a milestone in the sorted readings is the most recent one
in the journal. -/
theorem get?_ofList_readings (milestones : List MilestoneId) (history : List ProgressReading)
    (finish : Instant) (id : MilestoneId) :
    (Table.ofList ((readings milestones history).filter fun r => r.recordedAt < finish)).get? id =
      if id ∈ milestones then mostRecent? history finish id else none := by
  let own (r : ProgressReading) : Bool := r.milestoneId == id && decide (r.recordedAt < finish)
  have hlast : (Table.ofList ((readings milestones history).filter fun r =>
      r.recordedAt < finish)).get? id = ((readings milestones history).filter own).getLast? := by
    rw [Table.get?_ofList, ← List.getLast?_filter, List.filter_filter]
    rfl
  have hown : (history.filter fun r => milestones.contains r.milestoneId).filter own =
      if id ∈ milestones then history.filter own else [] :=
    filter_ofMilestones milestones history finish id
  rw [hlast, readings, getLast?_filter_mergeSort, hown]
  split <;> rfl

/-- Among readings of one time, the later one in the journal counts. -/
example : mostRecent? [⟨1, 100, .epoch⟩, ⟨2, 70, .epoch⟩, ⟨1, 40, .epoch⟩]
    (.onDay 0 0 1) 1 = some ⟨1, 40, .epoch⟩ := rfl

/-! ## One pass -/

/-- A bucket read off all the readings at once. -/
def bucket (hashing : Hashing) (total : Nat) (rs : List ProgressReading)
    (start finish : Instant) : TrendPoint :=
  point hashing start finish total (.ofList (rs.filter fun r => r.recordedAt < finish))
    (rs.countP fun r => start ≤ r.recordedAt ∧ r.recordedAt < finish)

/-- Readings that are still to come when a bucket begins. -/
structure Ahead (start : Instant) (rs : List ProgressReading) : Prop where
  sorted : rs.Pairwise fun a b => a.recordedAt ≤ b.recordedAt
  start_le : ∀ r ∈ rs, start ≤ r.recordedAt

/-- What the bucket does not take is ahead of the next one. -/
theorem Ahead.outside {inside outside : List ProgressReading}
    (h : Ahead start (inside ++ outside)) (hlate : ∀ r ∈ outside.head?, finish ≤ r.recordedAt) :
    Ahead finish outside := by
  have hsorted := (List.pairwise_append.1 h.sorted).2.1
  refine ⟨hsorted, fun r hr => ?_⟩
  have hfirst := List.head?_eq_some_head (List.ne_nil_of_mem hr)
  exact Int.le_trans (hlate _ hfirst) (le_recordedAt_of_head? hsorted hfirst hr)

/-- A bucket that begins after the readings before it shows all of them and those it takes. -/
theorem point_eq_bucket {total : Nat} {done inside outside : List ProgressReading}
    (hstart : start ≤ finish) (hdone : ∀ r ∈ done, r.recordedAt < start)
    (hahead : Ahead start (inside ++ outside)) (hinside : ∀ r ∈ inside, r.recordedAt < finish)
    (hlate : ∀ r ∈ outside, finish ≤ r.recordedAt) :
    point hashing start finish total (inside.foldl Table.insert (.ofList done)) inside.length =
      bucket hashing total (done ++ (inside ++ outside)) start finish := by
  have hbefore : ∀ r ∈ done, r.recordedAt < finish :=
    fun r hr => Int.lt_of_lt_of_le (hdone r hr) hstart
  have hnotlate : ∀ r ∈ outside, ¬r.recordedAt < finish := fun r hr => Int.not_lt.2 (hlate r hr)
  have hfilter : (done ++ (inside ++ outside)).filter (fun r => r.recordedAt < finish) =
      done ++ inside := by
    have hall : ∀ r ∈ done ++ inside, decide (r.recordedAt < finish) = true := fun r hr =>
      decide_eq_true ((List.mem_append.1 hr).elim (hbefore r) (hinside r))
    have hnone : ∀ r ∈ outside, ¬decide (r.recordedAt < finish) = true := fun r hr =>
      mt of_decide_eq_true (hnotlate r hr)
    rw [← List.append_assoc, List.filter_append, List.filter_eq_self.2 hall,
      List.filter_eq_nil_iff.2 hnone, List.append_nil]
  have hcount : (done ++ (inside ++ outside)).countP
      (fun r => start ≤ r.recordedAt ∧ r.recordedAt < finish) = inside.length := by
    have hearly : ∀ r ∈ done, ¬decide (start ≤ r.recordedAt ∧ r.recordedAt < finish) = true :=
      fun r hr hin => Int.not_le.2 (hdone r hr) (of_decide_eq_true hin).1
    have hall : ∀ r ∈ inside, decide (start ≤ r.recordedAt ∧ r.recordedAt < finish) = true :=
      fun r hr => decide_eq_true ⟨hahead.start_le r (List.mem_append_left _ hr), hinside r hr⟩
    have hnone : ∀ r ∈ outside, ¬decide (start ≤ r.recordedAt ∧ r.recordedAt < finish) = true :=
      fun r hr hin => hnotlate r hr (of_decide_eq_true hin).2
    rw [List.countP_append, List.countP_append, List.countP_eq_zero.2 hearly,
      List.countP_eq_length.2 hall, List.countP_eq_zero.2 hnone, Nat.zero_add, Nat.add_zero]
  rw [bucket, hfilter, hcount, Table.ofList, Table.ofList, List.foldl_append]

/-- One pass fills the buckets, each as if it were read off all the readings. -/
theorem eq_bucket_of_points? {total count : Nat} (hwidth : 0 ≤ width.nanos)
    {done rs : List ProgressReading} (hdone : ∀ r ∈ done, r.recordedAt < start)
    (hahead : Ahead start rs) {ps : List TrendPoint}
    (h : points? hashing total width count start (.ofList done) rs = some ps) :
    ∀ p ∈ ps, p = bucket hashing total (done ++ rs) p.periodStart p.periodEnd := by
  induction count generalizing start done rs ps with
  | zero =>
    cases h
    exact fun p hp => absurd hp List.not_mem_nil
  | succ count ih =>
    obtain ⟨finish, inside, outside, rest, hfinish, rfl, hinside, hlate, hrest, rfl⟩ :=
      of_points?_succ h
    have hstart : start ≤ finish := hfinish.le hwidth
    have houtside := hahead.outside hlate
    intro p hp
    rcases List.mem_cons.1 hp with hp | hp
    · rw [hp]
      exact point_eq_bucket hstart hdone hahead hinside houtside.start_le
    · rw [← List.append_assoc]
      refine ih (fun r hr => ?_) houtside ?_ p hp
      · rcases List.mem_append.1 hr with hr | hr
        · exact Int.lt_of_lt_of_le (hdone r hr) hstart
        · exact hinside r hr
      · rw [Table.ofList, List.foldl_append]
        exact hrest

/-- Every reading before the end of the last bucket is taken by one of the buckets. -/
theorem sum_updates_of_points? {total count : Nat} (hwidth : 0 ≤ width.nanos)
    {latest : Table ProgressReading} {rs : List ProgressReading} (hahead : Ahead start rs)
    {ps : List TrendPoint} (h : points? hashing total width count start latest rs = some ps) :
    ∃ finish, start.IsAfter (count * width.nanos) finish ∧
      (ps.map TrendPoint.updates).sum = rs.countP fun r => r.recordedAt < finish := by
  induction count generalizing start latest rs ps with
  | zero =>
    cases h
    -- Nothing can be ahead of a time and before it.
    have hnone : ∀ r ∈ rs, ¬decide (r.recordedAt < start) = true := fun r hr =>
      mt of_decide_eq_true (Instant.not_lt.2 (hahead.start_le r hr))
    refine ⟨start, ?_, (List.countP_eq_zero.2 hnone).symm⟩
    rw [Nat.cast_zero, Int.zero_mul]
    exact Instant.isAfter_zero.2 rfl
  | succ count ih =>
    obtain ⟨next, inside, outside, rest, hnext, rfl, hinside, hlate, hrest, rfl⟩ :=
      of_points?_succ h
    obtain ⟨finish, hfinish, hsum⟩ := ih (hahead.outside hlate) hrest
    have hspan : 0 ≤ (count : Int) * width.nanos := Int.mul_nonneg (Int.natCast_nonneg _) hwidth
    have hall : ∀ r ∈ inside, decide (r.recordedAt < finish) = true := fun r hr =>
      decide_eq_true (Int.lt_of_lt_of_le (hinside r hr) (hfinish.le hspan))
    refine ⟨finish, ?_, ?_⟩
    · rw [Nat.cast_succ, Int.add_mul, Int.one_mul, Int.add_comm]
      exact hnext.trans hwidth hspan hfinish
    · rw [List.map_cons, List.sum_cons, hsum, List.countP_append, List.countP_eq_length.2 hall]
      rfl

end Trend

/-! ## What a bucket shows -/

/-- What a bucket shows of the journal: how many readings of the milestones are within its period,
and of how many of them the most recent reading before its end is at the full hundred. -/
structure TrendPoint.Reports (milestones : List MilestoneId) (history : List ProgressReading)
    (p : TrendPoint) : Prop where
  updates_eq : p.updates = (Trend.ofMilestones milestones history).countP fun r =>
    p.periodStart ≤ r.recordedAt ∧ r.recordedAt < p.periodEnd
  completed_eq : p.completed = {id | id ∈ milestones ∧
    ∃ r, Trend.mostRecent? history p.periodEnd id = some r ∧ 100 ≤ r.percentageComplete}.ncard

namespace Trend

variable {milestones : List MilestoneId} {history : List ProgressReading} {width : Duration}
  {hashing : Hashing} {now start finish : Instant} {t : Trend}

theorem reports_bucket (hashing : Hashing) (total : Nat) (milestones : List MilestoneId)
    (history : List ProgressReading) (start finish : Instant) :
    (bucket hashing total (readings milestones history) start finish).Reports
      milestones history where
  updates_eq := (perm_readings milestones history).countP_eq _
  completed_eq := by
    rw [bucket, point, Table.countP_toList]
    refine congrArg Set.ncard (Set.ext fun id => ?_)
    rw [Set.mem_ofPred_eq, Set.mem_ofPred_eq, get?_ofList_readings]
    simp only [decide_eq_true_eq]
    by_cases hid : id ∈ milestones
    · rw [if_pos hid, and_iff_right hid]
    · rw [if_neg hid]
      simp [hid]

/-- A trend with buckets has a span. -/
theorem exists_spans (h : compute milestones history width now hashing = .ok t)
    (hpoints : t.points ≠ []) :
    Duration.second ≤ width ∧ ∃ start stop, Spans milestones history now start stop := by
  rw [compute] at h
  split at h
  · cases h
  · rename_i hnarrow
    refine ⟨Int.not_lt.1 hnarrow, ?_⟩
    dsimp only at h
    split at h
    · rename_i first last hfirst hlast
      exact ⟨_, _, (spans_iff hfirst hlast).2 ⟨rfl, rfl⟩⟩
    · cases h
      exact absurd rfl hpoints

/-- The buckets of a trend follow each other from the first reading of its milestones on, each with
the width that was asked for.  Each shows how many readings are within its period and how many
milestones have a most recent reading at the full hundred before its end.  Every reading before the
end of the last bucket is within the period of one bucket.  This is every reading, unless the
difference between the ends of the trend leaves out a leap second. -/
theorem compute_buckets (h : compute milestones history width now hashing = .ok t)
    (hpoints : t.points ≠ []) :
    ∃ start stop, Spans milestones history now start stop ∧
      (∀ (i : Nat) (p : TrendPoint), t.points[i]? = some p →
        start.IsAfter (i * width.nanos) p.periodStart ∧
          start.IsAfter ((i + 1 : Nat) * width.nanos) p.periodEnd ∧
            p.Reports milestones history) ∧
      (∃ p, t.latest? = some p ∧ (t.points.map TrendPoint.updates).sum =
        (ofMilestones milestones history).countP fun r => r.recordedAt < p.periodEnd) ∧
      (¬start.MissesLeap stop →
        (t.points.map TrendPoint.updates).sum = (ofMilestones milestones history).length) := by
  obtain ⟨hwidth, start, stop, hspans⟩ := exists_spans h hpoints
  obtain ⟨-, hbuckets⟩ := hspans.of_compute_eq_ok hwidth h
  have hzero : 0 ≤ width.nanos := Int.le_trans (by decide) hwidth
  have hmem : ∀ {r}, r ∈ readings milestones history → r ∈ ofMilestones milestones history :=
    (perm_readings milestones history).mem_iff.1
  have hahead : Ahead start (readings milestones history) :=
    ⟨pairwise_readings milestones history, fun r hr => hspans.start_le r (hmem hr)⟩
  have hfilled : ∀ p ∈ t.points, p = bucket hashing milestones.eraseDups.length
      ([] ++ readings milestones history) p.periodStart p.periodEnd :=
    eq_bucket_of_points? hzero (fun _ hr => absurd hr List.not_mem_nil) hahead hbuckets
  obtain ⟨n, p, hcount, -, hp, -, hend⟩ := hspans.exists_latest hwidth h
  rw [← hcount] at hend
  have hsum : (t.points.map TrendPoint.updates).sum =
      (ofMilestones milestones history).countP fun r => r.recordedAt < p.periodEnd := by
    obtain ⟨finish, hfinish, hsum⟩ := sum_updates_of_points? hzero hahead hbuckets
    rw [hsum, (perm_readings milestones history).countP_eq,
      hend.unique (Int.mul_nonneg (Int.natCast_nonneg _) hzero) hfinish]
  refine ⟨start, stop, hspans, fun i q hq => ?_, ⟨p, hp, hsum⟩, fun hmiss => ?_⟩
  · obtain ⟨hbegin, hfinish⟩ := (periods_of_points? hzero hbuckets).2 i q hq
    refine ⟨hbegin, hfinish, ?_⟩
    rw [hfilled q (List.mem_of_getElem? hq)]
    exact reports_bucket _ _ _ _ _ _
  · have hbeyond := lt_of_isAfter_bucketCount hwidth hspans.start_le_stop hmiss hend
    rw [hsum, List.countP_eq_length]
    exact fun r hr => decide_eq_true (Int.lt_of_le_of_lt (hspans.le_stop r hr) hbeyond)

/-! ## Two journals -/

/-- Readings of three milestones, not in the order of their times, and two of them of one time. -/
def shuffled : List ProgressReading :=
  [⟨2, 100, .onDay 0 2 0⟩, ⟨1, 100, .epoch⟩, ⟨3, 100, .epoch⟩,
    ⟨1, 40, .epoch⟩]

/-- The buckets take the three readings of two of the milestones. -/
theorem compute_buckets_shuffled : ∃ (now : Instant) (t : Trend), now.unixNanos = 2500000000 ∧
    compute [1, 2] shuffled 1000000000 now = .ok t ∧ t.points ≠ [] ∧
      (∀ p ∈ t.points, p.Reports [1, 2] shuffled) ∧
        (t.points.map TrendPoint.updates).sum = 3 := by
  let now : Instant := .onDay 0 2 500000000
  have hspans : Spans [1, 2] shuffled now .epoch now := by
    constructor <;> decide
  have hwidth : Duration.second ≤ 1000000000 := by decide
  obtain ⟨t, ht⟩ := hspans.exists_compute {} hwidth (by decide)
    ⟨.onDay 0 3 0, 3000000000, by decide, by decide⟩
  obtain ⟨n, -, -, hlength, -⟩ := hspans.exists_latest hwidth ht
  have hpoints : t.points ≠ [] := List.ne_nil_of_length_pos (by omega)
  obtain ⟨start, stop, hends, hshown, -, hsum⟩ := compute_buckets ht hpoints
  obtain ⟨rfl, rfl⟩ := hspans.unique hends
  refine ⟨now, t, by decide, ht, hpoints, fun p hp => ?_, hsum (by decide)⟩
  obtain ⟨i, hi⟩ := List.mem_iff_getElem?.1 hp
  exact (hshown i p hi).2.2

/-- Two readings around the end of 2016: one within the last second, which was a leap second, and
one in the first second of the new year. -/
def turnOfYear : List ProgressReading :=
  [⟨1, 10, .onDay 17166 86399 1900000000⟩,
    ⟨1, 20, .onDay 17167 1 0⟩]

/-- The difference between the two is only a tenth of a second, so one bucket of a second is thought
to hold both.  It ends a tenth of a second before the second one. -/
theorem not_all_taken : ∃ now t, compute [1] turnOfYear .second now = .ok t ∧ t.points ≠ [] ∧
    (t.points.map TrendPoint.updates).sum ≠ (ofMilestones [1] turnOfYear).length := by
  let now : Instant := .onDay 17167 1 0
  let finish : Instant := .onDay 17167 0 900000000
  have hspans : Spans [1] turnOfYear now
      (.onDay 17166 86399 1900000000) now := by
    constructor <;> decide
  have hwidth : Duration.second ≤ .second := by decide
  have hend : Instant.IsAfter (.onDay 17166 86399 1900000000)
      (bucketCount .second (.onDay 17166 86399 1900000000) now *
        Duration.second.nanos) finish :=
    ⟨.second, by decide, by decide⟩
  obtain ⟨t, ht⟩ := hspans.exists_compute {} hwidth (by decide) ⟨finish, hend⟩
  obtain ⟨n, -, -, hlength, -⟩ := hspans.exists_latest hwidth ht
  have hahead : Ahead _ (readings [1] turnOfYear) :=
    ⟨pairwise_readings [1] turnOfYear, fun r hr =>
      hspans.start_le r ((perm_readings [1] turnOfYear).mem_iff.1 hr)⟩
  obtain ⟨stop, hstop, hsum⟩ :=
    sum_updates_of_points? (by decide) hahead (hspans.of_compute_eq_ok hwidth ht).2
  obtain rfl := hend.unique (by decide) hstop
  refine ⟨now, t, ht, List.ne_nil_of_length_pos (by omega), ?_⟩
  rw [hsum, (perm_readings [1] turnOfYear).countP_eq]
  decide

end Trend

end Milestones
