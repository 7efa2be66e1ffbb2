import Milestones.Time.Duration

/-!
# Instants

An instant is a day, a second of that day and a fraction of the second, in universal time.  The
representable instants run from the first day of the year -262143 to the last day of the year
262142.

The last second of any minute may be followed by a leap second.  A clock shows it as second 60; here
it is the second part of a second that lasts twice as long.  So instants are ordered by day, second
and fraction, and an instant within a leap second comes after the second that is prolonged and
before the next minute.  There is no table of the leap seconds that were in fact inserted.

Going on from within a leap second, or back from it, takes the time that it takes.  Apart from this,
spans do not count leap seconds: a day always has 86400 seconds.  The difference of two instants
looks at their times of day to find out whether it goes over a leap second that one of them is in,
and at midnight it may be wrong about that: an earlier instant can be nearer than no time at all.

## Main definitions

* `Instant`: a point in time within the calendar's range, with `Instant.IsLeap`.
* `Instant.rank`, `Instant.unixNanos`: the order of instants, and their count without leap seconds.
* `Instant.add?`: moving by a duration, where the result is representable.
* `Instant.since`: the duration between two instants, which is always in range.
-/

namespace Milestones

namespace Instant

/-- The first day of the calendar, counted from the first day of 1970. -/
def firstDay : Int := -96465292

/-- The last day of the calendar, counted from the first day of 1970. -/
def lastDay : Int := 95026236

/-- The nanoseconds of a day. -/
def nanosPerDay : Int := 86400000000000

end Instant

/-- A point in time, exact to the nanosecond. -/
structure Instant where
  /-- The day, counted from the first day of 1970. -/
  day : Int
  /-- The second of the day. -/
  second : Nat
  /-- The nanoseconds since that second began: a billion or more within a leap second. -/
  nano : Nat
  firstDay_le : Instant.firstDay ≤ day
  day_le : day ≤ Instant.lastDay
  second_lt : second < 86400
  nano_lt : nano < 2000000000
  /-- Only the last second of a minute can be prolonged. -/
  second_mod : 1000000000 ≤ nano → second % 60 = 59
deriving DecidableEq

namespace Instant

/-- The instant is within a leap second. -/
def IsLeap (t : Instant) : Prop := 1000000000 ≤ t.nano

instance (t : Instant) : Decidable t.IsLeap := inferInstanceAs (Decidable (_ ≤ _))

/-- The place among all instants: by day, then by second, then by nanosecond. -/
def rank (t : Instant) : Int := (t.day * 86400 + t.second) * 2000000000 + t.nano

/-- The nanoseconds since the start of 1970 without leap seconds: during a leap second those of the
second before it are counted again. -/
def unixNanos (t : Instant) : Int := (t.day * 86400 + t.second) * 1000000000 + t.nano % 1000000000

theorem eq_of_rank {a b : Instant} (h : a.rank = b.rank) : a = b := by
  have hfields : a.day = b.day ∧ a.second = b.second ∧ a.nano = b.nano := by
    have := a.second_lt; have := a.nano_lt
    have := b.second_lt; have := b.nano_lt
    simp only [rank] at h
    omega
  cases a; cases b; simp_all

instance : LT Instant := ⟨fun a b => a.rank < b.rank⟩
instance : LE Instant := ⟨fun a b => a.rank ≤ b.rank⟩

instance (a b : Instant) : Decidable (a < b) := inferInstanceAs (Decidable (a.rank < b.rank))
instance (a b : Instant) : Decidable (a ≤ b) := inferInstanceAs (Decidable (a.rank ≤ b.rank))

theorem lt_iff {a b : Instant} : a < b ↔ a.rank < b.rank := Iff.rfl
theorem le_iff {a b : Instant} : a ≤ b ↔ a.rank ≤ b.rank := Iff.rfl

/-- The instant on a day after the first of 1970, by its second and the nanoseconds since then.
Beyond their ranges the numbers start over. -/
def onDay (day second nano : Nat) : Instant where
  day := (day % 95026237 : Nat)
  second := second % 86400
  nano := nano % if second % 60 = 59 then 2000000000 else 1000000000
  firstDay_le := by
    rw [firstDay]
    omega
  day_le := by
    rw [lastDay]
    omega
  second_lt := Nat.mod_lt _ (by decide)
  nano_lt := by split <;> omega
  second_mod := by split <;> omega

/-- The start of 1970. -/
def epoch : Instant := onDay 0 0 0

instance : Inhabited Instant := ⟨epoch⟩

/-- The instant so many nanoseconds after the begin of a second, which is counted from the start of
1970, if the calendar reaches it. -/
def ofSecond? (second : Int) (nano : Nat) : Option Instant :=
  if h : (firstDay ≤ second / 86400 ∧ second / 86400 ≤ lastDay) ∧
      nano < 2000000000 ∧ (1000000000 ≤ nano → second % 60 = 59) then
    some
      { day := second / 86400
        second := (second % 86400).toNat
        nano := nano
        firstDay_le := h.1.1
        day_le := h.1.2
        second_lt := by omega
        nano_lt := h.2.1
        second_mod := fun hleap => by
          have := h.2.2 hleap
          omega }
  else none

/-- The instant outside of leap seconds that many nanoseconds after the start of 1970, if the
calendar reaches it. -/
def ofUnixNanos? (n : Int) : Option Instant :=
  ofSecond? (n / 1000000000) (n % 1000000000).toNat

/-- The instant a duration later, if the calendar reaches it.  From within a leap second, the way
on leads through the rest of it, and the way back through what has passed of it. -/
def add? (t : Instant) (d : Duration) : Option Instant :=
  if h : t.IsLeap ∧ 1000000000 ≤ t.nano + d.nanos ∧ t.nano + d.nanos < 2000000000 then
    some
      { t with
        nano := (t.nano + d.nanos).toNat
        nano_lt := by omega
        second_mod := fun _ => t.second_mod h.1 }
  else
    let passed := if t.IsLeap ∧ d.nanos < 0 then 1000000000 else 0
    ofUnixNanos? (t.unixNanos + passed + d.nanos)

/-- The leap second that the difference of two instants takes into account, by their times of
day. -/
def leapBetween (t s : Instant) : Int :=
  if s.second < t.second ∧ s.IsLeap then 1
  else if t.second < s.second ∧ t.IsLeap then -1
  else 0

theorem natAbs_leapBetween_le (t s : Instant) : (leapBetween t s).natAbs ≤ 1 := by
  unfold leapBetween
  split
  · decide
  · split <;> decide

/-- The duration from `s` to `t`.  The whole calendar is far shorter than the longest
duration, so there always is one. -/
def since (t s : Instant) : Duration :=
  ⟨(t.day - s.day) * nanosPerDay + (t.second - s.second + leapBetween t s) * 1000000000 +
      (t.nano - s.nano), by
    have hleap := natAbs_leapBetween_le t s
    have := t.firstDay_le; have := t.day_le; have := t.second_lt; have := t.nano_lt
    have := s.firstDay_le; have := s.day_le; have := s.second_lt; have := s.nano_lt
    simp only [firstDay, lastDay, nanosPerDay, Duration.maxNanos] at *
    omega⟩

/-- The earlier of two instants. -/
def min (a b : Instant) : Instant := if a ≤ b then a else b

/-- The later of two instants. -/
def max (a b : Instant) : Instant := if a ≤ b then b else a

/-- The earliest instant of a list, if there is any. -/
def minimum? : List Instant → Option Instant
  | [] => none
  | t :: ts => some (ts.foldl min t)

end Instant

end Milestones
