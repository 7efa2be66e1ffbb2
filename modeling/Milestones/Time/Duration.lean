/-!
# Durations

A duration is exact to the nanosecond.  Its range is symmetric: the largest count of
milliseconds that a signed 64-bit word holds, in either direction.  Arithmetic that
would leave the range has no result.

## Main definitions

* `Duration`: a count of nanoseconds in range.
* `Duration.add?`, `Duration.sub?`: arithmetic that notices leaving the range.
* `Duration.seconds`, `Duration.millis`: whole units, cut toward zero.
-/

namespace Milestones

/-- The largest duration in nanoseconds: `2 ^ 63 - 1` milliseconds. -/
def Duration.maxNanos : Nat := 9223372036854775807000000

/-- A signed span of time, exact to the nanosecond. -/
structure Duration where
  nanos : Int
  natAbs_le : nanos.natAbs ≤ Duration.maxNanos
deriving DecidableEq

namespace Duration

@[ext] theorem ext {a b : Duration} (h : a.nanos = b.nanos) : a = b := by
  cases a; cases b; simp_all

instance : LT Duration := ⟨fun a b => a.nanos < b.nanos⟩
instance : LE Duration := ⟨fun a b => a.nanos ≤ b.nanos⟩

instance (a b : Duration) : Decidable (a < b) := inferInstanceAs (Decidable (a.nanos < b.nanos))
instance (a b : Duration) : Decidable (a ≤ b) := inferInstanceAs (Decidable (a.nanos ≤ b.nanos))

theorem lt_iff {a b : Duration} : a < b ↔ a.nanos < b.nanos := Iff.rfl
theorem le_iff {a b : Duration} : a ≤ b ↔ a.nanos ≤ b.nanos := Iff.rfl

/-- The empty span. -/
def zero : Duration := ⟨0, by decide⟩

instance : Inhabited Duration := ⟨zero⟩

/-- Numerals count nanoseconds; beyond the range they start over. -/
instance (n : Nat) : OfNat Duration n :=
  ⟨⟨(n % (maxNanos + 1) : Nat), Nat.le_of_lt_succ (Nat.mod_lt n (Nat.succ_pos maxNanos))⟩⟩

/-- The longest span. -/
def longest : Duration := ⟨maxNanos, by decide⟩

/-- One second. -/
def second : Duration := ⟨1000000000, by decide⟩

/-- Seven days. -/
def week : Duration := ⟨604800000000000, by decide⟩

/-- Fourteen days. -/
def fortnight : Duration := ⟨1209600000000000, by decide⟩

/-- The span of that many nanoseconds, if it is in range. -/
def ofNanos? (n : Int) : Option Duration :=
  if h : n.natAbs ≤ maxNanos then some ⟨n, h⟩ else none

/-- The span of that many milliseconds, if it is in range. -/
def ofMillis? (ms : Int) : Option Duration := ofNanos? (ms * 1000000)

/-- The span of that many seconds, if it is in range. -/
def ofSeconds? (s : Int) : Option Duration := ofNanos? (s * 1000000000)

/-- The sum, if it is in range. -/
def add? (a b : Duration) : Option Duration := ofNanos? (a.nanos + b.nanos)

/-- The difference, if it is in range. -/
def sub? (a b : Duration) : Option Duration := ofNanos? (a.nanos - b.nanos)

/-- Whole milliseconds, cut toward zero. -/
def millis (d : Duration) : Int := d.nanos.tdiv 1000000

/-- Whole seconds, cut toward zero. -/
def seconds (d : Duration) : Int := d.nanos.tdiv 1000000000

/-- Whole hours, cut toward zero. -/
def hours (d : Duration) : Int := d.seconds.tdiv 3600

/-- Whole days, cut toward zero. -/
def days (d : Duration) : Int := d.seconds.tdiv 86400

/-- The longer of two spans. -/
def max (a b : Duration) : Duration := if a ≤ b then b else a

/-- The shorter of two spans. -/
def min (a b : Duration) : Duration := if a ≤ b then a else b

/-- The longest span of a list, if there is any. -/
def maximum? : List Duration → Option Duration
  | [] => none
  | d :: ds => some (ds.foldl max d)

/-- The shortest span of a list, if there is any. -/
def minimum? : List Duration → Option Duration
  | [] => none
  | d :: ds => some (ds.foldl min d)

/-- The fields of a record hold whole seconds: what is left of a span when it is
written and read again. -/
def toWholeSeconds (d : Duration) : Duration :=
  ⟨d.nanos.tdiv 1000000000 * 1000000000, by
    have h := d.natAbs_le
    have : (d.nanos.tdiv 1000000000 * 1000000000).natAbs ≤ d.nanos.natAbs := by
      rw [Int.natAbs_mul, Int.natAbs_tdiv]
      exact Nat.div_mul_le_self _ _
    omega⟩

/-! ## Small laws -/

theorem ofNanos?_eq_some_iff {n : Int} {d : Duration} : ofNanos? n = some d ↔ d.nanos = n := by
  unfold ofNanos?
  split
  · constructor
    · intro h; cases h; rfl
    · intro h; congr 1; exact ext h.symm
  · rename_i h
    constructor
    · intro h'; cases h'
    · intro h'; exact absurd (h' ▸ d.natAbs_le) h

end Duration

end Milestones
