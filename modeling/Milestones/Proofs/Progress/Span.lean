import Mathlib.Order.Bounds.Basic
import Milestones.Proofs.Progress.Trend

/-!
# How far a trend goes

A trend begins at the first reading and has to cover everything up to now, or up to the last reading
if that is later.  Its buckets have the width that was asked for, to the nanosecond.  But they are
counted beforehand, as many as are longer than the difference of the two ends, and for the count the
width is cut to the millisecond.

A bucket is not wider in the count than it is in time.  So there are never too few buckets, unless
the difference leaves out a leap second.  For a width of whole milliseconds, and with both ends
outside of leap seconds, the count is exact: the last bucket holds the end, and too many buckets are
reported if and only if so many are needed.

A width with a fraction of a millisecond is counted as a smaller one.  Then there may be buckets
behind the end, and a trend may be refused that does not need as many buckets as are reported.  An
end within a leap second may have a bucket behind it as well.

## Main definitions

* `Trend.ofMilestones`: the readings of some milestones, as the journal has them.
* `Trend.Spans`: from when to when a trend goes.
* `Trend.Reaches`: so many buckets go beyond the end.

## Main statements

* `Trend.isLeast_bucketCount`: how many buckets there are.
* `Trend.periods_of_points?`: when they begin and end.
* `Trend.compute_covers`: what the buckets cover.
-/

namespace Milestones

open Outcome

namespace Trend

variable {milestones : List MilestoneId} {history : List ProgressReading} {width : Duration}
  {hashing : Hashing} {now start stop : Instant} {t : Trend}

/-! ## From when to when -/

/-- The readings of some milestones, as the journal has them. -/
def ofMilestones (milestones : List MilestoneId) (history : List ProgressReading) :
    List ProgressReading :=
  history.filter fun r => milestones.contains r.milestoneId

/-- A trend goes from the first reading of its milestones until now, or until the last one if that
is later. -/
structure Spans (milestones : List MilestoneId) (history : List ProgressReading)
    (now start stop : Instant) : Prop where
  exists_start : ∃ r ∈ ofMilestones milestones history, r.recordedAt = start
  start_le : ∀ r ∈ ofMilestones milestones history, start ≤ r.recordedAt
  now_le : now ≤ stop
  le_stop : ∀ r ∈ ofMilestones milestones history, r.recordedAt ≤ stop
  stop_eq : stop = now ∨ ∃ r ∈ ofMilestones milestones history, r.recordedAt = stop

theorem perm_readings (milestones : List MilestoneId) (history : List ProgressReading) :
    (readings milestones history).Perm (ofMilestones milestones history) :=
  List.mergeSort_perm _ _

theorem le_recordedAt_trans (a b c : ProgressReading) :
    decide (a.recordedAt ≤ b.recordedAt) = true → decide (b.recordedAt ≤ c.recordedAt) = true →
      decide (a.recordedAt ≤ c.recordedAt) = true := by
  simp only [decide_eq_true_eq, Instant.le_iff]
  exact Int.le_trans

theorem le_recordedAt_total (a b : ProgressReading) :
    (decide (a.recordedAt ≤ b.recordedAt) || decide (b.recordedAt ≤ a.recordedAt)) = true := by
  simp only [Bool.or_eq_true, decide_eq_true_eq, Instant.le_iff]
  exact Int.le_total _ _

theorem pairwise_mergeSort (rs : List ProgressReading) :
    (rs.mergeSort fun a b => a.recordedAt ≤ b.recordedAt).Pairwise fun a b =>
      a.recordedAt ≤ b.recordedAt :=
  (List.pairwise_mergeSort le_recordedAt_trans le_recordedAt_total rs).imp of_decide_eq_true

theorem pairwise_readings (milestones : List MilestoneId) (history : List ProgressReading) :
    (readings milestones history).Pairwise fun a b => a.recordedAt ≤ b.recordedAt :=
  pairwise_mergeSort _

/-- No reading is later than the last one of sorted readings. -/
theorem recordedAt_le_of_getLast? {rs : List ProgressReading}
    (hsorted : rs.Pairwise fun a b => a.recordedAt ≤ b.recordedAt) {last r : ProgressReading}
    (hlast : rs.getLast? = some last) (hr : r ∈ rs) : r.recordedAt ≤ last.recordedAt := by
  obtain ⟨before, rfl⟩ := List.getLast?_eq_some_iff.1 hlast
  rcases List.mem_append.1 hr with hr | hr
  · exact (List.pairwise_append.1 hsorted).2.2 r hr last List.mem_cons_self
  · rw [List.mem_singleton.1 hr]
    exact Int.le_refl _

/-- No reading is earlier than the first one. -/
theorem le_recordedAt_of_head? {rs : List ProgressReading}
    (hsorted : rs.Pairwise fun a b => a.recordedAt ≤ b.recordedAt) {first r : ProgressReading}
    (hfirst : rs.head? = some first) (hr : r ∈ rs) : first.recordedAt ≤ r.recordedAt := by
  obtain ⟨rest, rfl⟩ := List.head?_eq_some_iff.1 hfirst
  rcases List.mem_cons.1 hr with rfl | hr
  · exact Int.le_refl _
  · exact (List.pairwise_cons.1 hsorted).1 r hr

/-- Among sorted readings these are the times of the first one and of the last one. -/
theorem spans_iff {first last : ProgressReading}
    (hfirst : (readings milestones history).head? = some first)
    (hlast : (readings milestones history).getLast? = some last) :
    Spans milestones history now start stop ↔
      first.recordedAt = start ∧ now.max last.recordedAt = stop := by
  have hsorted := pairwise_readings milestones history
  have hmem : ∀ {r}, r ∈ ofMilestones milestones history ↔ r ∈ readings milestones history :=
    (perm_readings milestones history).mem_iff.symm
  have hfirst_mem := hmem.2 (List.mem_of_mem_head? hfirst)
  have hlast_mem := hmem.2 (List.mem_of_getLast? hlast)
  have hfirst_le : ∀ r ∈ ofMilestones milestones history, first.recordedAt ≤ r.recordedAt :=
    fun r hr => le_recordedAt_of_head? hsorted hfirst (hmem.1 hr)
  have hle_last : ∀ r ∈ ofMilestones milestones history, r.recordedAt ≤ last.recordedAt :=
    fun r hr => recordedAt_le_of_getLast? hsorted hlast (hmem.1 hr)
  constructor
  · rintro ⟨⟨x, hx, rfl⟩, hstart, hnow, hstop, heq⟩
    refine ⟨Instant.le_antisymm (hfirst_le x hx) (hstart first hfirst_mem), ?_⟩
    refine Instant.le_antisymm (Instant.max_le hnow (hstop last hlast_mem)) ?_
    rcases heq with rfl | ⟨y, hy, rfl⟩
    · exact Instant.le_max_left _ _
    · exact Int.le_trans (hle_last y hy) (Instant.le_max_right _ _)
  · rintro ⟨rfl, rfl⟩
    refine ⟨⟨first, hfirst_mem, rfl⟩, hfirst_le, Instant.le_max_left _ _, fun r hr =>
      Int.le_trans (hle_last r hr) (Instant.le_max_right _ _), ?_⟩
    rw [Instant.max]
    split
    · exact .inr ⟨last, hlast_mem, rfl⟩
    · exact .inl rfl

/-- A trend with a span is cut into buckets, unless there are too many of them. -/
theorem Spans.compute_eq (h : Spans milestones history now start stop)
    (hwidth : Duration.second ≤ width) :
    compute milestones history width now hashing =
      if maxBuckets < bucketCount width start stop then
        refuse (.tooManyBuckets (bucketCount width start stop))
      else orFault .dateRange (points? hashing milestones.eraseDups.length width
        (bucketCount width start stop) start .empty (readings milestones history)) >>= fun points =>
          .ok ⟨milestones.eraseDups.length, points⟩ := by
  have hnonempty : readings milestones history ≠ [] := by
    obtain ⟨r, hr, -⟩ := h.exists_start
    exact List.ne_nil_of_mem ((perm_readings milestones history).mem_iff.2 hr)
  have hfirst := List.head?_eq_some_head hnonempty
  have hlast := List.getLast?_eq_some_getLast hnonempty
  obtain ⟨rfl, rfl⟩ := (spans_iff hfirst hlast).1 h
  have hwide : ¬width < Duration.second := Int.not_lt.2 hwidth
  rw [compute, if_neg hwide]
  simp only [hfirst, hlast]

/-- The ends of a trend are determined. -/
theorem Spans.unique {start' stop' : Instant} (h : Spans milestones history now start stop)
    (h' : Spans milestones history now start' stop') : start = start' ∧ stop = stop' := by
  obtain ⟨r, hr, -⟩ := h.exists_start
  have hnonempty := List.ne_nil_of_mem ((perm_readings milestones history).mem_iff.2 hr)
  have hfirst := List.head?_eq_some_head hnonempty
  have hlast := List.getLast?_eq_some_getLast hnonempty
  obtain ⟨hstart, hstop⟩ := (spans_iff hfirst hlast).1 h
  obtain ⟨hstart', hstop'⟩ := (spans_iff hfirst hlast).1 h'
  exact ⟨hstart.symm.trans hstart', hstop.symm.trans hstop'⟩

/-! ## How many buckets -/

/-- So many spans of a width, in nanoseconds, go beyond the end: to a later instant, or beyond the
calendar. -/
def Reaches (width : Int) (start stop : Instant) (count : Nat) : Prop :=
  ∀ u, start.IsAfter (count * width) u → stop < u

/-- Outside of leap seconds, this can be read off the counts. -/
theorem reaches_iff {width : Int} (hwidth : 0 ≤ width) (hstart : ¬start.IsLeap)
    (hstop : ¬stop.IsLeap) {count : Nat} :
    Reaches width start stop count ↔ stop.unixNanos - start.unixNanos < count * width := by
  have hspan : 0 ≤ (count : Int) * width := Int.mul_nonneg (Int.natCast_nonneg _) hwidth
  have hunix : ∀ {u}, start.IsAfter (count * width) u → ¬u.IsLeap ∧
      u.unixNanos = start.unixNanos + count * width := fun h => by
    obtain ⟨hunix, hleap⟩ := (Instant.isAfter_iff hspan).1 h
    exact ⟨mt hleap.1 fun h => hstart h.1, hunix⟩
  constructor
  · intro h
    cases hdate : Instant.ofUnixNanos? (start.unixNanos + count * width) with
    | none =>
      have hfirst := start.le_unixNanos
      have hlate := (Instant.ofUnixNanos?_eq_none_iff (by omega)).1 hdate
      have hend := stop.unixNanos_lt
      omega
    | some u =>
      obtain ⟨hu, hleap⟩ := Instant.ofUnixNanos?_eq_some_iff.1 hdate
      have hafter : start.IsAfter (count * width) u :=
        (Instant.isAfter_iff hspan).2 ⟨hu, iff_of_false hleap fun h => hstart h.1⟩
      have hlt := (Instant.lt_iff_unixNanos hstop hleap).1 (h u hafter)
      omega
  · intro h u hu
    obtain ⟨hleap, hunix⟩ := hunix hu
    rw [Instant.lt_iff_unixNanos hstop hleap, hunix]
    omega

/-- The least number of spans of a width that are longer than some other span, at least one. -/
theorem isLeast_div_add_one {span width : Int} (hwidth : 0 < width) (hspan : 0 ≤ span) :
    IsLeast {n : Nat | span < n * width} (span / width + 1).toNat := by
  have hdiv : 0 ≤ span / width := Int.ediv_nonneg hspan (Int.le_of_lt hwidth)
  constructor
  · change span < ((_ : Nat) : Int) * width
    rw [Int.toNat_of_nonneg (Int.le_add_one hdiv)]
    exact Int.lt_ediv_add_one_mul_self span hwidth
  · intro n hn
    have hlt := Int.ediv_lt_of_lt_mul hwidth hn
    omega

theorem millis_eq (hwidth : Duration.second ≤ width) : width.millis = width.nanos / 1000000 :=
  Int.tdiv_eq_ediv_of_nonneg (Int.le_trans (by decide) hwidth)

/-- There are as many buckets as are longer than the difference of the ends, if each of them is cut
to the millisecond. -/
theorem isLeast_bucketCount (hwidth : Duration.second ≤ width) (h : start ≤ stop) :
    IsLeast {n : Nat | 0 < n ∧ (stop.since start).nanos < n * (width.millis * 1000000)}
      (bucketCount width start stop) := by
  have hnanos : 1000000000 ≤ width.nanos := hwidth
  have hmillis := millis_eq hwidth
  by_cases hspan : 0 ≤ (stop.since start).nanos
  · have hcount : bucketCount width start stop =
        ((stop.since start).nanos / (width.millis * 1000000) + 1).toNat := by
      rw [bucketCount, Duration.millis, Int.tdiv_eq_ediv_of_nonneg hspan,
        Int.tdiv_eq_ediv_of_nonneg (by omega), Int.ediv_ediv_of_nonneg (by decide), Int.mul_comm]
    have hstep : 0 < width.millis * 1000000 := by omega
    obtain ⟨hlong, hleast⟩ := isLeast_div_add_one hstep hspan
    rw [hcount]
    refine ⟨⟨Nat.pos_of_ne_zero fun hzero => ?_, hlong⟩, fun n hn => hleast hn.2⟩
    have hlong : (stop.since start).nanos < ((_ : Nat) : Int) * (width.millis * 1000000) := hlong
    rw [hzero, Nat.cast_zero, Int.zero_mul] at hlong
    omega
  · -- A difference that lost a leap second counts as none.
    have hshort := Instant.neg_second_lt_since h
    have hcount : bucketCount width start stop = 1 := by
      have hcut : (stop.since start).millis.natAbs = (stop.since start).nanos.natAbs / 1000000 :=
        Int.natAbs_tdiv _ _
      have hquot : (stop.since start).millis.tdiv width.millis = 0 :=
        Int.natAbs_eq_zero.1 ((Int.natAbs_tdiv _ _).trans (Nat.div_eq_of_lt (by omega)))
      rw [bucketCount, hquot]
      rfl
    rw [hcount]
    refine ⟨⟨Nat.one_pos, ?_⟩, fun n hn => hn.1⟩
    omega

theorem bucketCount_pos (hwidth : Duration.second ≤ width) (h : start ≤ stop) :
    0 < bucketCount width start stop := (isLeast_bucketCount hwidth h).1.1

/-- The buckets are longer than the difference of the ends. -/
theorem since_lt_bucketCount (hwidth : Duration.second ≤ width) (h : start ≤ stop) :
    (stop.since start).nanos < bucketCount width start stop * width.nanos := by
  have hmillis := millis_eq hwidth
  have hlong := (isLeast_bucketCount hwidth h).1.2
  have hcut : width.millis * 1000000 ≤ width.nanos := by omega
  exact Int.lt_of_lt_of_le hlong (Int.mul_le_mul_of_nonneg_left hcut (Int.natCast_nonneg _))

/-! ## When they begin and end -/

/-- The first bucket takes the readings up to its end, and leaves the others for those behind it. -/
theorem of_points?_succ {total count : Nat} {latest : Table ProgressReading}
    {rs : List ProgressReading} {ps : List TrendPoint}
    (h : points? hashing total width (count + 1) start latest rs = some ps) :
    ∃ finish inside outside rest, start.IsAfter width.nanos finish ∧
      rs = inside ++ outside ∧ (∀ r ∈ inside, r.recordedAt < finish) ∧
      (∀ r ∈ outside.head?, finish ≤ r.recordedAt) ∧
      points? hashing total width count finish (inside.foldl Table.insert latest) outside =
        some rest ∧
      ps = point hashing start finish total (inside.foldl Table.insert latest) inside.length ::
        rest := by
  obtain ⟨finish, hfinish, h⟩ := Option.bind_eq_some_iff.1 h
  obtain ⟨rest, hrest, h⟩ := Option.bind_eq_some_iff.1 h
  let early (r : ProgressReading) : Bool := r.recordedAt < finish
  have hparts : rs = rs.takeWhile early ++ rs.dropWhile early :=
    List.takeWhile_append_dropWhile.symm
  have hdrop : rs.drop (rs.takeWhile early).length = rs.dropWhile early :=
    (congrArg (List.drop _) hparts).trans List.drop_left
  refine ⟨finish, rs.takeWhile early, rs.dropWhile early, rest,
    Instant.isAfter_nanos.2 hfinish, hparts, fun r hr => ?_, fun r hr => ?_,
    hdrop ▸ hrest, (Option.some.inj h).symm⟩
  · have hearly : early r = true := List.mem_takeWhile_imp hr
    exact of_decide_eq_true hearly
  · have hlate := List.head?_dropWhile_not early rs
    rw [Option.mem_def.1 hr] at hlate
    exact Instant.not_lt.1 (of_decide_eq_false hlate)

/-- The buckets follow each other from the start on, all with the same width. -/
theorem periods_of_points? (hwidth : 0 ≤ width.nanos) {total count : Nat}
    {latest : Table ProgressReading} {rs : List ProgressReading} {ps : List TrendPoint}
    (h : points? hashing total width count start latest rs = some ps) :
    ps.length = count ∧ ∀ (i : Nat) (p : TrendPoint), ps[i]? = some p →
      start.IsAfter (i * width.nanos) p.periodStart ∧
        start.IsAfter ((i + 1 : Nat) * width.nanos) p.periodEnd := by
  induction count generalizing start latest rs ps with
  | zero =>
    cases h
    exact ⟨rfl, fun i p hp => by simp at hp⟩
  | succ count ih =>
    obtain ⟨finish, _, _, rest, hfinish, -, -, -, hrest, rfl⟩ := of_points?_succ h
    obtain ⟨hlength, hperiods⟩ := ih hrest
    have hgo : ∀ {n : Nat} {u : Instant}, finish.IsAfter (n * width.nanos) u →
        start.IsAfter ((n + 1 : Nat) * width.nanos) u := fun h => by
      rw [Nat.cast_succ, Int.add_mul, Int.one_mul, Int.add_comm]
      exact hfinish.trans hwidth (Int.mul_nonneg (Int.natCast_nonneg _) hwidth) h
    refine ⟨congrArg (· + 1) hlength, fun i p hp => ?_⟩
    cases i with
    | zero =>
      cases hp
      rw [Nat.cast_zero, Int.zero_mul, Nat.zero_add, Nat.cast_one, Int.one_mul]
      exact ⟨Instant.isAfter_zero.2 rfl, hfinish⟩
    | succ i =>
      obtain ⟨hstart, hend⟩ := hperiods i p hp
      exact ⟨hgo hstart, hgo hend⟩

/-! ## What the buckets cover -/

/-- A trend has the buckets that were counted. -/
theorem Spans.of_compute_eq_ok (h : Spans milestones history now start stop)
    (hwidth : Duration.second ≤ width)
    (hok : compute milestones history width now hashing = .ok t) :
    bucketCount width start stop ≤ maxBuckets ∧
      points? hashing milestones.eraseDups.length width (bucketCount width start stop) start .empty
        (readings milestones history) = some t.points := by
  rw [h.compute_eq hwidth] at hok
  split at hok
  · cases hok
  · rename_i hcount
    obtain ⟨points, hpoints, hok⟩ := bind_eq_ok.1 hok
    cases hok
    exact ⟨Nat.not_lt.1 hcount, orFault_eq_ok.1 hpoints⟩

theorem Spans.start_le_stop (h : Spans milestones history now start stop) : start ≤ stop := by
  obtain ⟨r, hr, rfl⟩ := h.exists_start
  exact h.le_stop r hr

/-- The buckets that are counted are too many, or they are those of the trend. -/
theorem Spans.compute_eq_refuse_iff (h : Spans milestones history now start stop)
    (hwidth : Duration.second ≤ width) {n : Nat} :
    compute milestones history width now hashing = refuse (.tooManyBuckets n) ↔
      maxBuckets < n ∧ bucketCount width start stop = n := by
  rw [h.compute_eq hwidth]
  split
  · rename_i hcount
    simp only [refuse, Except.error.injEq, Failure.refused.injEq, TrendError.tooManyBuckets.injEq]
    exact ⟨fun hn => ⟨hn ▸ hcount, hn⟩, fun hn => hn.2⟩
  · rename_i hcount
    refine ⟨fun hrefuse => ?_, fun hn => absurd (hn.2 ▸ hn.1) hcount⟩
    rcases bind_eq_error.1 hrefuse with hfault | ⟨_, -, hok⟩
    · cases (orFault_eq_error.1 hfault).2
    · cases hok

/-- The last bucket of a trend begins where those before it end. -/
theorem Spans.exists_latest (h : Spans milestones history now start stop)
    (hwidth : Duration.second ≤ width)
    (hok : compute milestones history width now hashing = .ok t) :
    ∃ n p, bucketCount width start stop = n + 1 ∧ t.points.length = n + 1 ∧ t.latest? = some p ∧
      start.IsAfter (n * width.nanos) p.periodStart ∧
        start.IsAfter ((n + 1 : Nat) * width.nanos) p.periodEnd := by
  obtain ⟨-, hpoints⟩ := h.of_compute_eq_ok hwidth hok
  obtain ⟨hlength, hperiods⟩ := periods_of_points? (Int.le_trans (by decide) hwidth) hpoints
  obtain ⟨n, hcount⟩ := Nat.exists_eq_add_one.2 (bucketCount_pos hwidth h.start_le_stop)
  rw [hcount] at hlength
  have hlast : n < t.points.length := by omega
  have hget := List.getElem?_eq_getElem hlast
  obtain ⟨hstart, hend⟩ := hperiods n t.points[n] hget
  refine ⟨n, t.points[n], hcount, hlength, ?_, hstart, hend⟩
  rw [latest?, List.getLast?_eq_getElem?, hlength, Nat.add_sub_cancel, hget]

/-- Where there are not too many buckets and the last one ends in the calendar, there is a trend. -/
theorem Spans.exists_compute (hashing : Hashing) (h : Spans milestones history now start stop)
    (hwidth : Duration.second ≤ width) (hcount : bucketCount width start stop ≤ maxBuckets)
    (hdates : ∃ u, start.IsAfter (bucketCount width start stop * width.nanos) u) :
    ∃ t, compute milestones history width now hashing = .ok t := by
  have hzero : 0 ≤ width.nanos := Int.le_trans (by decide) hwidth
  rw [h.compute_eq hwidth, if_neg (Nat.not_lt.2 hcount)]
  cases hpoints : points? hashing milestones.eraseDups.length width (bucketCount width start stop)
      start .empty (readings milestones history) with
  | none =>
    have hlate := (points?_eq_none_iff _ _ hzero _ _ _ _).1 hpoints
    obtain ⟨u, hu⟩ := hdates
    obtain ⟨hunix, -⟩ :=
      (Instant.isAfter_iff (Int.mul_nonneg (Int.natCast_nonneg _) hzero)).1 hu
    exact absurd u.unixNanos_lt (Int.not_lt.2 (hunix ▸ hlate))
  | some points => exact ⟨_, rfl⟩

/-- Unless the difference of the ends leaves out a leap second, the buckets go beyond the end. -/
theorem lt_of_isAfter_bucketCount (hwidth : Duration.second ≤ width) (h : start ≤ stop)
    (hmiss : ¬start.MissesLeap stop) {u : Instant}
    (hu : start.IsAfter (bucketCount width start stop * width.nanos) u) : stop < u := by
  have hpos : (1 : Int) ≤ bucketCount width start stop :=
    Int.ofNat_le.2 (bucketCount_pos hwidth h)
  have hlong : 1 * width.nanos ≤ bucketCount width start stop * width.nanos :=
    Int.mul_le_mul_of_nonneg_right hpos (Int.le_trans (by decide) hwidth)
  rw [Int.one_mul] at hlong
  exact hu.lt_of_since_lt (Int.le_trans hwidth hlong) h (since_lt_bucketCount hwidth h) hmiss

/-- Too many buckets are reported exactly if so many are longer than the difference of the ends,
each cut to the millisecond.  The last bucket of a trend ends behind the end, unless that difference
leaves out a leap second.  If the width is one of whole milliseconds and neither end is within a
leap second, too many buckets are reported exactly if so many are needed.  Otherwise, if the last
bucket that is needed has an end in the calendar, it is the last one of the trend, and it holds the
end. -/
theorem compute_covers (hashing : Hashing) (hspans : Spans milestones history now start stop)
    (hwidth : Duration.second ≤ width) :
    (∀ n, compute milestones history width now hashing = refuse (.tooManyBuckets n) ↔
      maxBuckets < n ∧
        IsLeast {k : Nat | 0 < k ∧ (stop.since start).nanos < k * (width.millis * 1000000)} n) ∧
    (¬start.MissesLeap stop → ∀ t, compute milestones history width now hashing = .ok t →
      ∃ p, t.latest? = some p ∧ stop < p.periodEnd) ∧
    (1000000 ∣ width.nanos → ¬start.IsLeap → ¬stop.IsLeap →
      ∀ n, IsLeast {k | Reaches width.nanos start stop k} n →
        ((∃ m, compute milestones history width now hashing = refuse (.tooManyBuckets m)) ↔
          maxBuckets < n) ∧
        (n ≤ maxBuckets → (∃ u, start.IsAfter (n * width.nanos) u) →
          ∃ t p, compute milestones history width now hashing = .ok t ∧ t.points.length = n ∧
            t.latest? = some p ∧ p.periodStart ≤ stop ∧ stop < p.periodEnd)) := by
  have hle := hspans.start_le_stop
  have hleast := isLeast_bucketCount hwidth hle
  refine ⟨fun n => ?_, fun hmiss t ht => ?_, fun hwhole hstart hstop n hn => ?_⟩
  · rw [hspans.compute_eq_refuse_iff hwidth]
    constructor
    · rintro ⟨hmany, rfl⟩
      exact ⟨hmany, hleast⟩
    · exact fun hn => ⟨hn.1, hleast.unique hn.2⟩
  · obtain ⟨k, p, hcount, -, hp, -, hend⟩ := hspans.exists_latest hwidth ht
    rw [← hcount] at hend
    exact ⟨p, hp, lt_of_isAfter_bucketCount hwidth hle hmiss hend⟩
  · -- Nothing is lost of the width or of the difference, so the buckets that are counted are those
    -- that are needed.
    have hzero : 0 ≤ width.nanos := Int.le_trans (by decide) hwidth
    have hcounted : {k : Nat | 0 < k ∧ (stop.since start).nanos < k * (width.millis * 1000000)} =
        {k | Reaches width.nanos start stop k} := by
      have hmillis : width.millis * 1000000 = width.nanos := by
        rw [millis_eq hwidth]
        omega
      have hsince := Instant.since_nanos_of_not_leap hstart hstop
      have hnonneg : start.unixNanos ≤ stop.unixNanos :=
        Int.not_lt.1 fun hlt => Instant.not_lt.2 hle ((Instant.lt_iff_unixNanos hstop hstart).2 hlt)
      ext k
      simp only [Set.mem_ofPred_eq, reaches_iff hzero hstart hstop, hmillis, hsince]
      refine ⟨fun h => h.2, fun h => ⟨Nat.pos_of_ne_zero fun hk => ?_, h⟩⟩
      rw [hk, Nat.cast_zero, Int.zero_mul] at h
      omega
    rw [hcounted] at hleast
    obtain rfl := hleast.unique hn
    constructor
    · constructor
      · rintro ⟨m, hm⟩
        obtain ⟨hmany, rfl⟩ := (hspans.compute_eq_refuse_iff hwidth).1 hm
        exact hmany
      · exact fun hmany => ⟨_, (hspans.compute_eq_refuse_iff hwidth).2 ⟨hmany, rfl⟩⟩
    · intro hfew hdates
      obtain ⟨t, ht⟩ := hspans.exists_compute hashing hwidth hfew hdates
      obtain ⟨k, p, hcount, hlength, hp, hbegin, hend⟩ := hspans.exists_latest hwidth ht
      rw [hcount] at hn ⊢
      refine ⟨t, p, ht, hlength, hp, ?_, hn.1 _ hend⟩
      -- One bucket less would not go beyond the end.
      refine Instant.not_lt.1 fun hbehind => ?_
      have hfewer : Reaches width.nanos start stop k := fun u hu =>
        hu.unique (Int.mul_nonneg (Int.natCast_nonneg _) hzero) hbegin ▸ hbehind
      exact absurd (hn.2 hfewer) (Nat.not_succ_le_self k)

/-! ## One reading -/

/-- A single reading at some time. -/
def oneReading (start : Instant) : List ProgressReading := [⟨1, 10, start⟩]

theorem spans_oneReading (h : start ≤ now) : Spans [1] (oneReading start) now start now where
  exists_start := ⟨_, List.mem_singleton_self _, rfl⟩
  start_le := fun r hr => by cases List.mem_singleton.1 hr; exact Instant.le_refl _
  now_le := Instant.le_refl _
  le_stop := fun r hr => by cases List.mem_singleton.1 hr; exact h
  stop_eq := .inl rfl

/-- In four and a half seconds there are four buckets of a second and a half, and the last one
begins at the end. -/
theorem compute_covers_halves :
    ∃ now : Instant, now.unixNanos = 4500000000 ∧ Spans [1] (oneReading .epoch) now .epoch now ∧
      Duration.second ≤ 1500000000 ∧ ¬Instant.epoch.IsLeap ∧ ¬now.IsLeap ∧
      IsLeast {k | Reaches (1500000000 : Duration).nanos .epoch now k} 4 ∧
      ∃ t p, compute [1] (oneReading .epoch) 1500000000 now = .ok t ∧ t.points.length = 4 ∧
        t.latest? = some p ∧ p.periodStart ≤ now ∧ now < p.periodEnd := by
  let now : Instant := .onDay 0 4 500000000
  have hspans : Spans [1] (oneReading .epoch) now .epoch now := spans_oneReading (by decide)
  have hwidth : Duration.second ≤ 1500000000 := by decide
  have hstart : ¬Instant.epoch.IsLeap := by decide
  have hnow : ¬now.IsLeap := by decide
  have hleast : IsLeast {k | Reaches (1500000000 : Duration).nanos .epoch now k} 4 := by
    have hfour : ((now.unixNanos - Instant.epoch.unixNanos) / (1500000000 : Duration).nanos +
        1).toNat = 4 := by decide
    simp only [reaches_iff (by decide : (0 : Int) ≤ (1500000000 : Duration).nanos) hstart hnow]
    rw [← hfour]
    exact isLeast_div_add_one (by decide) (by decide)
  obtain ⟨-, -, hwhole⟩ := compute_covers {} hspans hwidth
  obtain ⟨-, htrend⟩ := hwhole (by decide) hstart hnow 4 hleast
  exact ⟨now, by decide, hspans, hwidth, hstart, hnow, hleast,
    htrend (by decide) ⟨_, 6000000000, by decide, rfl⟩⟩

/-- A second and almost a millisecond. -/
def fraction : Duration := 1000999999

/-- A width with a fraction of a millisecond is counted as a second.  In a little more than a second
one bucket would do, but there are two, and the second one lies behind the end.  In ten thousand
seconds ten buckets less would do than are reported as too many.  And in the second before a leap
second and nine tenths of it, one bucket of a second would do, but there are two. -/
theorem not_covers : Duration.second ≤ fraction ∧
    (∃ now t p, now.unixNanos = 1000500000 ∧ Spans [1] (oneReading .epoch) now .epoch now ∧
      Reaches fraction.nanos .epoch now 1 ∧ compute [1] (oneReading .epoch) fraction now = .ok t ∧
        t.latest? = some p ∧ now < p.periodStart) ∧
    (∃ now, now.unixNanos = 10000000000000 ∧ Spans [1] (oneReading .epoch) now .epoch now ∧
      Reaches fraction.nanos .epoch now 9991 ∧
        compute [1] (oneReading .epoch) fraction now = refuse (.tooManyBuckets 10001)) ∧
    ∃ start now t p, Spans [1] (oneReading start) now start now ∧
      Reaches Duration.second.nanos start now 1 ∧
        compute [1] (oneReading start) .second now = .ok t ∧ t.latest? = some p ∧
          now < p.periodStart := by
  -- Where two buckets are counted, the second one begins a width after the start.
  have hsecond : ∀ {width : Duration} {start now u : Instant}, Duration.second ≤ width →
      start ≤ now → bucketCount width start now = 2 → start.add? width = some u → now < u →
        (∃ v, start.IsAfter (2 * width.nanos) v) →
          Spans [1] (oneReading start) now start now ∧ Reaches width.nanos start now 1 ∧
            ∃ t p, compute [1] (oneReading start) width now = .ok t ∧ t.latest? = some p ∧
              now < p.periodStart := by
    intro width start now u hwidth hle htwo hu hnow hdates
    have hspans : Spans [1] (oneReading start) now start now := spans_oneReading hle
    have hone : start.IsAfter ((1 : Nat) * width.nanos) u := by
      rw [Nat.cast_one, Int.one_mul]
      exact Instant.isAfter_nanos.2 hu
    have hzero : 0 ≤ ((1 : Nat) : Int) * width.nanos :=
      Int.mul_nonneg (by decide) (Int.le_trans (by decide) hwidth)
    obtain ⟨t, ht⟩ := hspans.exists_compute {} hwidth (htwo ▸ by decide) (htwo ▸ hdates)
    obtain ⟨n, p, hcount, -, hp, hstart, -⟩ := hspans.exists_latest hwidth ht
    obtain rfl : n = 1 := by omega
    exact ⟨hspans, fun v hv => hv.unique hzero hone ▸ hnow, t, p, ht, hp,
      hstart.unique hzero hone ▸ hnow⟩
  have hwidth : Duration.second ≤ fraction := by decide
  refine ⟨hwidth, ?_, ?_, ?_⟩
  · let now : Instant := .onDay 0 1 500000
    let end₁ : Instant := .onDay 0 1 999999
    obtain ⟨hspans, hreaches, t, p, ht, hp, hbehind⟩ := hsecond hwidth
      (by decide : Instant.epoch ≤ now) (by decide) (by decide : _ = some end₁) (by decide)
      ⟨_, 2001999998, by decide, rfl⟩
    exact ⟨now, t, p, by decide, hspans, hreaches, ht, hp, hbehind⟩
  · let now : Instant := .onDay 0 10000 0
    have hspans : Spans [1] (oneReading .epoch) now .epoch now := spans_oneReading (by decide)
    refine ⟨now, by decide, hspans, ?_,
      (hspans.compute_eq_refuse_iff hwidth).2 ⟨by decide, by decide⟩⟩
    exact (reaches_iff (by decide) (by decide) (by decide)).2 (by decide)
  · -- The end of 2016.
    let start : Instant := .onDay 17166 86399 0
    let now : Instant := .onDay 17166 86399 1900000000
    let midnight : Instant := .onDay 17167 0 0
    obtain ⟨hspans, hreaches, t, p, ht, hp, hbehind⟩ := hsecond (Int.le_refl _)
      (by decide : start ≤ now) (by decide) (by decide : _ = some midnight) (by decide)
      ⟨.onDay 17167 1 0, 2000000000, by decide, by decide⟩
    exact ⟨start, now, t, p, hspans, hreaches, ht, hp, hbehind⟩

end Trend

end Milestones
