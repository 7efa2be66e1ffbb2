import Milestones.Datum.Toml.Document
import Milestones.Risk.Weights

/-!
# Settings

The settings of a planner are read from TOML.  Every one has a default, so an empty text
gives the default settings.

## Main definitions

* `Settings`: the settings.
* `Settings.validate`: refuses values that a planner cannot work with.
* `Settings.ofToml`: reads and validates.
-/

namespace Milestones

/-- The settings of a planner. -/
structure Settings where
  /-- How many schedules are remembered; none are where this is zero. -/
  cacheCapacity : UInt64 := 1024
  /-- How long a schedule is remembered; without a limit until something is written. -/
  cacheTtl : Option Duration := none
  /-- The date of the start of every schedule. -/
  scheduleStart : Option Instant := none
  riskWeights : RiskWeights := {}
  /-- The width of the buckets of a trend; one week by default. -/
  trendBucket : Duration := .week
  /-- Whether the store is told after every change which milestones are critical. -/
  persistCriticalFlags : Bool := false
deriving DecidableEq

/-- Why settings are refused. -/
inductive SettingsError where
  /-- The text does not give settings. -/
  | unreadable
  | narrowBucket (millis : Int)
  | lifetime (seconds : Int)
  | weights (e : WeightsError)
deriving DecidableEq

/-- The message of a refusal. -/
def SettingsError.message : SettingsError → String
  | unreadable => "invalid config syntax: the text does not give settings"
  | narrowBucket millis =>
    "invalid config value: trend_bucket must be at least 1s, got " ++ toString millis ++ "ms"
  | lifetime seconds =>
    "invalid config value: cache_ttl must be positive, got " ++ toString seconds ++ "s"
  | weights e => "invalid config value: " ++ e.message

namespace Settings

/-- Refuses values that a planner cannot work with. -/
def validate (s : Settings) : Except SettingsError Unit := do
  if s.trendBucket < .second then throw (.narrowBucket s.trendBucket.millis)
  match s.cacheTtl with
  | some ttl => if ttl ≤ .zero then throw (.lifetime ttl.seconds)
  | none => pure ()
  s.riskWeights.validate.mapError .weights

open Datum

/-- Writes settings. -/
def toDatum (s : Settings) : Datum :=
  record
    [("cache_capacity", int s.cacheCapacity.toNat),
      ("cache_ttl", ofOption ofDuration s.cacheTtl),
      ("schedule_start", ofOption ofInstant s.scheduleStart),
      ("risk_weights", s.riskWeights.toDatum),
      ("trend_bucket", ofDuration s.trendBucket),
      ("persist_critical_flags", bool s.persistCriticalFlags)]

/-- Reads settings; what is missing keeps its default. -/
def ofDatum? (l : Leniency) (d : Datum) : Option Settings := do
  let fs ← d.fields? l ["cache_capacity", "cache_ttl", "schedule_start", "risk_weights",
    "trend_bucket", "persist_critical_flags"]
  let default : Settings := {}
  some
    { cacheCapacity := ← fs.given? "cache_capacity" default.cacheCapacity word?
      cacheTtl := ← fs.given? "cache_ttl" none (optional? duration?)
      scheduleStart := ← fs.given? "schedule_start" none (optional? instant?)
      riskWeights := ← fs.given? "risk_weights" default.riskWeights (RiskWeights.ofDatum? l)
      trendBucket := ← fs.given? "trend_bucket" default.trendBucket duration?
      persistCriticalFlags := ← fs.given? "persist_critical_flags" false bool? }

/-- Reads settings from TOML and validates them. -/
def ofToml (text : String) : Except SettingsError Settings :=
  match (Datum.ofToml? text).bind (ofDatum? .toml) with
  | none => .error .unreadable
  | some s => do
    s.validate
    .ok s

end Settings

end Milestones
