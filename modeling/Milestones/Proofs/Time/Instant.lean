import Milestones.Time.Instant

/-!
# Laws of instants

Instants are in order by day, second and nanosecond.  Going on for a while is adding to the count
without leap seconds, and the result is within a leap second exactly if the way did not lead out of
the one where it began.  So it makes no difference whether one goes on once or twice, and who goes
on for longer comes to a later instant.

The difference of two instants is that of their counts unless one of them is within a leap second.
Then a second may be missing from it, because the times of day alone do not show on which side of
the leap second the other instant is.

## Main definitions

* `Instant.calendarEnd`: the first nanosecond after the calendar.
* `Instant.IsAfter`: an instant that is a number of nanoseconds after another one.
* `Instant.MissesLeap`: the difference of two instants leaves out a leap second.

## Main statements

* `Instant.lt_iff_lex`: the order of instants.
* `Instant.add?_eq_some_iff`, `Instant.add?_eq_none_iff`: going on, and leaving the calendar.
* `Instant.IsAfter.trans`, `Instant.IsAfter.le_of_le`: going on twice, and for longer.
* `Instant.not_missesLeap`: outside of leap seconds, differences leave nothing out.
* `Instant.since_nanos_of_not_leap`, `Instant.since_pos`, `Instant.IsAfter.lt_of_since_lt`: what a
  difference says.
-/

namespace Milestones.Instant

variable {t u v : Instant} {d : Duration} {m n : Int}

/-! ## Order -/

/-- Instants are ordered by day, then by second, then by nanosecond. -/
theorem lt_iff_lex : t < u ↔ t.day < u.day ∨
    t.day = u.day ∧ (t.second < u.second ∨ t.second = u.second ∧ t.nano < u.nano) := by
  have := t.second_lt; have := t.nano_lt
  have := u.second_lt; have := u.nano_lt
  rw [lt_iff, rank, rank]
  omega

theorem le_refl (t : Instant) : t ≤ t := Int.le_refl _

theorem le_trans (h : t ≤ u) (h' : u ≤ v) : t ≤ v := Int.le_trans h h'

theorem le_antisymm (h : t ≤ u) (h' : u ≤ t) : t = u := eq_of_rank (Int.le_antisymm h h')

theorem not_lt : ¬t < u ↔ u ≤ t := Int.not_lt

/-- Outside of leap seconds, the count and the order agree. -/
theorem lt_iff_unixNanos (ht : ¬t.IsLeap) (hu : ¬u.IsLeap) : t < u ↔ t.unixNanos < u.unixNanos := by
  simp only [IsLeap, Nat.not_le] at ht hu
  rw [lt_iff, rank, rank, unixNanos, unixNanos]
  omega

theorem le_max_left (s t : Instant) : s ≤ s.max t := by
  rw [max]
  split
  · assumption
  · exact le_refl s

theorem le_max_right (s t : Instant) : t ≤ s.max t := by
  rw [max]
  split
  · exact le_refl t
  · rename_i h
    exact Int.le_of_lt (Int.not_le.1 h)

theorem max_le {s t u : Instant} (hs : s ≤ u) (ht : t ≤ u) : s.max t ≤ u := by
  rw [max]
  split
  · exact ht
  · exact hs

/-! ## Going on -/

/-- The first nanosecond after the calendar. -/
def calendarEnd : Int := (lastDay + 1) * nanosPerDay

theorem unixNanos_lt (t : Instant) : t.unixNanos < calendarEnd := by
  have := t.day_le; have := t.second_lt
  simp only [unixNanos, calendarEnd, lastDay, nanosPerDay] at *
  omega

theorem le_unixNanos (t : Instant) : firstDay * nanosPerDay ≤ t.unixNanos := by
  have := t.firstDay_le
  simp only [unixNanos, firstDay, nanosPerDay] at *
  omega

theorem ofSecond?_eq_some_iff {second : Int} {nano : Nat} :
    ofSecond? second nano = some u ↔ u.day * 86400 + u.second = second ∧ u.nano = nano := by
  have hfirst := u.firstDay_le; have hlast := u.day_le
  have hsecond := u.second_lt; have hnano := u.nano_lt; have hmod := u.second_mod
  rw [ofSecond?]
  split
  · rename_i h
    rw [Option.some.injEq]
    constructor
    · rintro rfl
      exact ⟨by dsimp only; omega, rfl⟩
    · rintro ⟨rfl, rfl⟩
      refine eq_of_rank ?_
      simp only [rank]
      omega
  · rename_i h
    refine ⟨fun hnone => absurd hnone (Option.some_ne_none u).symm, ?_⟩
    rintro ⟨rfl, rfl⟩
    exact absurd (by omega) h

theorem ofUnixNanos?_eq_some_iff : ofUnixNanos? n = some u ↔ u.unixNanos = n ∧ ¬u.IsLeap := by
  rw [ofUnixNanos?, ofSecond?_eq_some_iff, unixNanos, IsLeap]
  omega

/-- Beyond its begin, the calendar has an instant for every count up to its end. -/
theorem ofUnixNanos?_eq_none_iff (hn : firstDay * nanosPerDay ≤ n) :
    ofUnixNanos? n = none ↔ calendarEnd ≤ n := by
  have hcalendar : n < calendarEnd ↔ (firstDay ≤ n / 1000000000 / 86400 ∧
      n / 1000000000 / 86400 ≤ lastDay) ∧ (n % 1000000000).toNat < 2000000000 ∧
        (1000000000 ≤ (n % 1000000000).toNat → n / 1000000000 % 60 = 59) := by
    simp only [calendarEnd, firstDay, lastDay, nanosPerDay] at *
    omega
  rw [ofUnixNanos?, ofSecond?]
  split
  · rename_i h
    simp [Int.not_le.2 (hcalendar.2 h)]
  · rename_i h
    simp [Int.not_lt.1 (mt hcalendar.1 h)]

/-- The way on adds to the count, and is still within a leap second if it does not lead out of
it. -/
theorem add?_eq_some_iff (hd : 0 ≤ d.nanos) : t.add? d = some u ↔
    u.unixNanos = t.unixNanos + d.nanos ∧
      (u.IsLeap ↔ t.IsLeap ∧ t.nano + d.nanos < 2000000000) := by
  have := t.nano_lt
  rw [add?]
  split
  · rename_i h
    have hleap : 1000000000 ≤ t.nano := h.1
    have hsecond := t.second_lt
    have hsecond' := u.second_lt; have hnano' := u.nano_lt
    rw [Option.some.injEq]
    constructor
    · rintro rfl
      simp only [unixNanos, IsLeap] at *
      omega
    · rintro ⟨hunix, hleap⟩
      refine eq_of_rank ?_
      simp only [unixNanos, IsLeap, rank] at *
      omega
  · rename_i h
    have hpassed : ¬(t.IsLeap ∧ d.nanos < 0) := fun h => Int.not_lt.2 hd h.2
    have hout : ¬(t.IsLeap ∧ t.nano + d.nanos < 2000000000) := by
      simp only [IsLeap] at *
      omega
    simp only [if_neg hpassed, Int.add_zero, ofUnixNanos?_eq_some_iff, iff_false_right hout]

/-- The calendar does not reach an instant later exactly if the count goes beyond its end. -/
theorem add?_eq_none_iff (hd : 0 ≤ d.nanos) :
    t.add? d = none ↔ calendarEnd ≤ t.unixNanos + d.nanos := by
  have hfirst := t.le_unixNanos
  have hend := t.unixNanos_lt
  rw [add?]
  split
  · rename_i h
    have hday := t.day_le
    have hsecond := t.second_lt
    simp only [reduceCtorEq, false_iff]
    simp only [unixNanos, calendarEnd, lastDay, nanosPerDay, IsLeap] at *
    omega
  · have hpassed : ¬(t.IsLeap ∧ d.nanos < 0) := fun h => Int.not_lt.2 hd h.2
    simp only [if_neg hpassed, Int.add_zero]
    exact ofUnixNanos?_eq_none_iff (by omega)

/-- The second instant is so many nanoseconds after the first one. -/
def IsAfter (t : Instant) (n : Int) (u : Instant) : Prop :=
  ∃ d : Duration, d.nanos = n ∧ t.add? d = some u

theorem isAfter_nanos : t.IsAfter d.nanos u ↔ t.add? d = some u :=
  ⟨fun ⟨_, hd, h⟩ => Duration.ext hd ▸ h, fun h => ⟨d, rfl, h⟩⟩

theorem isAfter_iff (hn : 0 ≤ n) : t.IsAfter n u ↔
    u.unixNanos = t.unixNanos + n ∧ (u.IsLeap ↔ t.IsLeap ∧ t.nano + n < 2000000000) := by
  constructor
  · rintro ⟨d, rfl, h⟩
    exact (add?_eq_some_iff hn).1 h
  · intro h
    -- Within the calendar, no way is longer than the longest duration.
    have hrange : n.natAbs ≤ Duration.maxNanos := by
      have := t.le_unixNanos
      have := u.unixNanos_lt
      simp only [calendarEnd, firstDay, lastDay, nanosPerDay, Duration.maxNanos] at *
      omega
    exact ⟨⟨n, hrange⟩, rfl, (add?_eq_some_iff hn).2 h⟩

theorem isAfter_zero : t.IsAfter 0 u ↔ u = t := by
  rw [isAfter_iff (Int.le_refl 0)]
  have := t.second_lt; have := t.nano_lt
  have := u.second_lt; have := u.nano_lt
  constructor
  · rintro ⟨hunix, hleap⟩
    refine eq_of_rank ?_
    simp only [unixNanos, IsLeap, rank] at *
    omega
  · rintro rfl
    simp only [IsLeap]
    omega

namespace IsAfter

/-- It makes no difference whether one goes on once or twice. -/
theorem trans (hm : 0 ≤ m) (hn : 0 ≤ n) (h : t.IsAfter m u) (h' : u.IsAfter n v) :
    t.IsAfter (m + n) v := by
  rw [isAfter_iff (by omega)] at *
  obtain ⟨hunix, hleap⟩ := h
  obtain ⟨hunix', hleap'⟩ := h'
  have := u.nano_lt
  simp only [unixNanos, IsLeap] at *
  omega

/-- Who goes on for longer comes to a later instant. -/
theorem le_of_le (hm : 0 ≤ m) (hmn : m ≤ n) (h : t.IsAfter m u) (h' : t.IsAfter n v) : u ≤ v := by
  obtain ⟨hunix, hleap⟩ := (isAfter_iff hm).1 h
  obtain ⟨hunix', hleap'⟩ := (isAfter_iff (Int.le_trans hm hmn)).1 h'
  have := u.second_lt; have := u.nano_lt
  have := v.second_lt; have := v.nano_lt
  simp only [le_iff, rank, unixNanos, IsLeap] at *
  omega

theorem le (hn : 0 ≤ n) (h : t.IsAfter n u) : t ≤ u :=
  le_of_le (Int.le_refl 0) hn (isAfter_zero.2 rfl) h

theorem unique (hn : 0 ≤ n) (h : t.IsAfter n u) (h' : t.IsAfter n v) : u = v :=
  le_antisymm (le_of_le hn (Int.le_refl n) h h') (le_of_le hn (Int.le_refl n) h' h)

end IsAfter

/-! ## Differences -/

/-- The difference of two instants leaves out a leap second that one of them is in: the earlier one,
and the later one is later on another day, but not later in the day; or the later one, and it is
earlier in the day. -/
def MissesLeap (s t : Instant) : Prop :=
  s.IsLeap ∧ t.second ≤ s.second ∧ s.day < t.day ∨ t.IsLeap ∧ t.second < s.second

instance (s t : Instant) : Decidable (MissesLeap s t) := inferInstanceAs (Decidable (_ ∨ _))

variable {s : Instant}

theorem not_missesLeap (hs : ¬s.IsLeap) (ht : ¬t.IsLeap) : ¬MissesLeap s t :=
  fun h => h.elim (fun h => hs h.1) fun h => ht h.1

/-- Outside of leap seconds, the difference is that of the counts. -/
theorem since_nanos_of_not_leap (hs : ¬s.IsLeap) (ht : ¬t.IsLeap) :
    (t.since s).nanos = t.unixNanos - s.unixNanos := by
  have hleap : leapBetween t s = 0 := by
    rw [leapBetween, if_neg fun h => hs h.2, if_neg fun h => ht h.2]
  simp only [IsLeap, Nat.not_le] at hs ht
  simp only [since, hleap, unixNanos, nanosPerDay]
  omega

theorem leapBetween_cases (t s : Instant) :
    (s.second < t.second ∧ s.IsLeap) ∧ leapBetween t s = 1 ∨
      (t.second < s.second ∧ t.IsLeap) ∧ leapBetween t s = -1 ∨
        ¬(s.second < t.second ∧ s.IsLeap) ∧ ¬(t.second < s.second ∧ t.IsLeap) ∧
          leapBetween t s = 0 := by
  rw [leapBetween]
  split
  · simp_all
  · split <;> simp_all

/-- To a later instant, the difference is never a second less than nothing. -/
theorem neg_second_lt_since (h : s ≤ t) : -1000000000 < (t.since s).nanos := by
  have := s.second_lt; have := s.nano_lt
  have := t.second_lt; have := t.nano_lt
  have hbetween := leapBetween_cases t s
  simp only [since, le_iff, rank, nanosPerDay, IsLeap] at *
  omega

/-- Unless it leaves out a leap second, the difference to a later instant is positive. -/
theorem since_pos (h : s < t) (hmiss : ¬MissesLeap s t) : 0 < (t.since s).nanos := by
  have := s.second_lt; have := s.nano_lt
  have := t.second_lt; have := t.nano_lt
  have hbetween := leapBetween_cases t s
  simp only [since, lt_iff, rank, MissesLeap, nanosPerDay, IsLeap] at *
  omega

/-- Unless the difference leaves out a leap second, who goes on for longer, and for a second at
least, comes to a later instant. -/
theorem IsAfter.lt_of_since_lt (h : s.IsAfter n u) (hn : 1000000000 ≤ n) (hst : s ≤ t)
    (hlt : (t.since s).nanos < n) (hmiss : ¬MissesLeap s t) : t < u := by
  obtain ⟨hunix, hleap⟩ := (isAfter_iff (by omega)).1 h
  have := s.second_lt; have := s.nano_lt
  have := t.second_lt; have := t.nano_lt
  have := u.second_lt; have := u.nano_lt
  have hbetween := leapBetween_cases t s
  simp only [since, le_iff, lt_iff, rank, unixNanos, MissesLeap, nanosPerDay, IsLeap] at *
  omega

end Milestones.Instant
