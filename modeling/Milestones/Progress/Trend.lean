import Milestones.Contract.Written
import Milestones.Failure
import Milestones.Hashing

/-!
# The trend of progress

Time is cut into buckets of one width, from the first reading on until now, or until the
last reading if that is later.  Each bucket shows the state at its end: the latest reading
of every milestone, where a milestone without any counts as zero.  The journal alone
decides; what milestones say of themselves now does not enter.

The latest readings are kept in a hash map and added up as it lists them.  A sum of floating-point
numbers depends on their order, so the average of a bucket depends on how the map is arranged.

## Main definitions

* `Trend`: the buckets of some milestones.
* `Trend.compute`: cuts a journal into buckets.
-/

namespace Milestones

instance : Identified ProgressReading .milestone := ⟨ProgressReading.milestoneId⟩

/-- The state at the end of a bucket. -/
structure TrendPoint where
  /-- The first instant of the bucket. -/
  periodStart : Instant
  /-- The first instant after the bucket. -/
  periodEnd : Instant
  /-- Milestones at the full hundred. -/
  completed : Nat
  completionRate : Float
  averageProgress : Float
  /-- Readings within the bucket. -/
  updates : Nat
deriving DecidableEq

/-- The progress of some milestones over time. -/
structure Trend where
  total : Nat
  /-- The buckets, oldest first. -/
  points : List TrendPoint
deriving DecidableEq

/-- Why there is no trend. -/
inductive TrendError where
  | narrowBucket (millis : Int)
  | tooManyBuckets (requested : Nat)
deriving DecidableEq

namespace Trend

/-- No trend has more buckets. -/
def maxBuckets : Nat := 10000

end Trend

/-- The message of a refusal. -/
def TrendError.message : TrendError → String
  | narrowBucket millis =>
    "trend bucket width must be at least 1s, got " ++ toString millis ++ "ms"
  | tooManyBuckets requested =>
    "progress trend would need " ++ toString requested ++ " buckets (max " ++
      toString Trend.maxBuckets ++ ")"

namespace Trend

/-- The state of `total` milestones, given the latest reading of those that have one. -/
def point (hashing : Hashing) (start finish : Instant) (total : Nat)
    (latest : Table ProgressReading) (updates : Nat) : TrendPoint :=
  let completed := latest.toList.countP fun r => 100 ≤ r.percentageComplete
  let sum := (hashing.listed latest).foldl (fun sum r => sum + r.percentageComplete) (-0.0)
  { periodStart := start
    periodEnd := finish
    completed := completed
    completionRate := if total = 0 then 0 else Float.ofNat completed / Float.ofNat total * 100
    averageProgress := if total = 0 then 0 else sum / Float.ofNat total
    updates := updates }

/-- The given count of buckets from a start on.  Readings come sorted by time; those of a
bucket replace older ones.  There is no answer where a bucket ends beyond the calendar. -/
def points? (hashing : Hashing) (total : Nat) (width : Duration) : (count : Nat) →
    (start : Instant) → (latest : Table ProgressReading) → (readings : List ProgressReading) →
    Option (List TrendPoint)
  | 0, _, _, _ => some []
  | count + 1, start, latest, readings => do
    let finish ← start.add? width
    let inside := readings.takeWhile fun r => r.recordedAt < finish
    let latest := inside.foldl Table.insert latest
    let rest ← points? hashing total width count finish latest (readings.drop inside.length)
    some (point hashing start finish total latest inside.length :: rest)

/-- The readings of some milestones, by time; those of one time stay in order. -/
def readings (milestones : List MilestoneId) (history : List ProgressReading) :
    List ProgressReading :=
  (history.filter fun r => milestones.contains r.milestoneId).mergeSort fun a b =>
    a.recordedAt ≤ b.recordedAt

/-- The number of buckets from one instant to another, both taken to the millisecond. -/
def bucketCount (width : Duration) (start finish : Instant) : Nat :=
  ((finish.since start).millis.tdiv width.millis + 1).toNat

/-- The trend of some milestones, each of them given once or more often. -/
def compute (milestones : List MilestoneId) (history : List ProgressReading) (width : Duration)
    (now : Instant) (hashing : Hashing := {}) : Outcome TrendError Trend :=
  if width < .second then Outcome.refuse (.narrowBucket width.millis)
  else
    let total := milestones.eraseDups.length
    let sorted := readings milestones history
    match sorted.head?, sorted.getLast? with
    | some first, some last =>
      let start := first.recordedAt
      let count := bucketCount width start (now.max last.recordedAt)
      if maxBuckets < count then Outcome.refuse (.tooManyBuckets count)
      else do
        let points ← Outcome.orFault .dateRange
          (points? hashing total width count start .empty sorted)
        .ok ⟨total, points⟩
    | _, _ => .ok ⟨total, []⟩

/-- The latest bucket. -/
def latest? (t : Trend) : Option TrendPoint := t.points.getLast?

end Trend

/-! ## Written form -/

open Datum

/-- Writes a bucket. -/
def TrendPoint.toDatum (p : TrendPoint) : Datum :=
  record
    [("period_start", ofInstant p.periodStart),
      ("period_end", ofInstant p.periodEnd),
      ("completed", int p.completed),
      ("completion_rate", float p.completionRate),
      ("average_progress", float p.averageProgress),
      ("updates", int p.updates)]

/-- Writes a trend. -/
def Trend.toDatum (t : Trend) : Datum :=
  record [("total", int t.total), ("points", list (t.points.map TrendPoint.toDatum))]

end Milestones
