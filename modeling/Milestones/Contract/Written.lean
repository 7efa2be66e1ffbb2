import Milestones.Contract.Snapshot
import Milestones.Datum.Basic
import Milestones.Time.Text

/-!
# Records as structured data

How the records of a contract are written and read.  All fields are written, null where
there is nothing.  A field that is missing takes its default where it has one.  Durations
are written in whole seconds.

## Main definitions

* `Milestone.toDatum`, `Milestone.ofDatum?`, and the same for the other records.
-/

namespace Milestones

namespace Datum

/-! ## Parts of records -/

/-- A value or null. -/
def ofOption {α : Type} (write : α → Datum) : Option α → Datum
  | none => null
  | some a => write a

/-- An identifier as text. -/
def ofId {kind : RecordKind} (id : RecordId kind) : Datum := text id.text

/-- Reads an identifier. -/
def id? {kind : RecordKind} : Datum → Option (RecordId kind)
  | text s => RecordId.ofText? s
  | _ => none

/-- A date as text. -/
def ofInstant (t : Instant) : Datum := text t.text

/-- Reads a date. -/
def instant? : Datum → Option Instant
  | text s => Instant.ofLooseText? s
  | _ => none

/-- A duration in whole seconds. -/
def ofDuration (d : Duration) : Datum := int d.seconds

/-- Reads a duration from whole seconds. -/
def duration? (d : Datum) : Option Duration := d.int64?.bind Duration.ofSeconds?

end Datum

open Datum

/-! ## Milestones -/

namespace Milestone

/-- The names of the fields, in order. -/
def fieldNames : List String :=
  ["id", "contract_id", "title", "description", "sequence_number", "dependencies", "category",
    "priority", "risk_level", "criticality_score", "status", "critical_path",
    "estimated_start_date", "estimated_end_date", "actual_start_date", "actual_end_date",
    "estimated_duration", "actual_duration", "percentage_complete", "contingency_plans"]

/-- Writes a milestone. -/
def toDatum (m : Milestone) : Datum :=
  record
    [("id", ofId m.id),
      ("contract_id", ofId m.contractId),
      ("title", text m.title),
      ("description", text m.description),
      ("sequence_number", int m.sequenceNumber.toInt),
      ("dependencies", list (m.dependencies.map ofId)),
      ("category", ofOption text m.category),
      ("priority", int m.priority.toInt),
      ("risk_level", text m.riskLevel.name),
      ("criticality_score", int m.criticalityScore.toNat),
      ("status", text m.status.name),
      ("critical_path", bool m.criticalPath),
      ("estimated_start_date", ofOption ofInstant m.estimatedStart),
      ("estimated_end_date", ofOption ofInstant m.estimatedEnd),
      ("actual_start_date", ofOption ofInstant m.actualStart),
      ("actual_end_date", ofOption ofInstant m.actualEnd),
      ("estimated_duration", ofOption ofDuration m.estimatedDuration),
      ("actual_duration", ofOption ofDuration m.actualDuration),
      ("percentage_complete", float m.percentageComplete),
      ("contingency_plans", list (m.contingencyPlans.map text))]

/-- Reads a milestone. -/
def ofDatum? (l : Leniency) (d : Datum) : Option Milestone := do
  let fs ← d.fields? l fieldNames
  some
    { id := ← fs.required? "id" id?
      contractId := ← fs.required? "contract_id" id?
      title := ← fs.required? "title" text?
      description := ← fs.given? "description" "" text?
      sequenceNumber := ← fs.given? "sequence_number" 0 int32?
      dependencies := ← fs.given? "dependencies" [] (list? id?)
      category := ← fs.given? "category" none (optional? text?)
      priority := ← fs.given? "priority" 0 int32?
      riskLevel := ← fs.given? "risk_level" .low (name? l RiskLevel.names)
      criticalityScore := ← fs.given? "criticality_score" 0 byte?
      status := ← fs.given? "status" .pending (name? l Status.names)
      criticalPath := ← fs.given? "critical_path" false bool?
      estimatedStart := ← fs.given? "estimated_start_date" none (optional? instant?)
      estimatedEnd := ← fs.given? "estimated_end_date" none (optional? instant?)
      actualStart := ← fs.given? "actual_start_date" none (optional? instant?)
      actualEnd := ← fs.given? "actual_end_date" none (optional? instant?)
      estimatedDuration := ← fs.given? "estimated_duration" none (optional? duration?)
      actualDuration := ← fs.given? "actual_duration" none (optional? duration?)
      percentageComplete := ← fs.given? "percentage_complete" 0 float?
      contingencyPlans := ← fs.given? "contingency_plans" [] (list? text?) }

end Milestone

namespace MilestoneEdit

/-- The names of the fields, in order. -/
def fieldNames : List String :=
  ["title", "description", "sequence_number", "category", "priority", "risk_level",
    "criticality_score", "estimated_start_date", "estimated_end_date", "estimated_duration",
    "contingency_plans"]

/-- Writes an edit. -/
def toDatum (e : MilestoneEdit) : Datum :=
  record
    [("title", ofOption text e.title),
      ("description", ofOption text e.description),
      ("sequence_number", ofOption (fun n => int n.toInt) e.sequenceNumber),
      ("category", ofOption text e.category),
      ("priority", ofOption (fun n => int n.toInt) e.priority),
      ("risk_level", ofOption (fun l => text l.name) e.riskLevel),
      ("criticality_score", ofOption (fun n => int n.toNat) e.criticalityScore),
      ("estimated_start_date", ofOption ofInstant e.estimatedStart),
      ("estimated_end_date", ofOption ofInstant e.estimatedEnd),
      ("estimated_duration", ofOption ofDuration e.estimatedDuration),
      ("contingency_plans", ofOption (fun ps => list (ps.map text)) e.contingencyPlans)]

/-- Reads an edit. -/
def ofDatum? (l : Leniency) (d : Datum) : Option MilestoneEdit := do
  let fs ← d.fields? l fieldNames
  some
    { title := ← fs.given? "title" none (optional? text?)
      description := ← fs.given? "description" none (optional? text?)
      sequenceNumber := ← fs.given? "sequence_number" none (optional? int32?)
      category := ← fs.given? "category" none (optional? text?)
      priority := ← fs.given? "priority" none (optional? int32?)
      riskLevel := ← fs.given? "risk_level" none (optional? (name? l RiskLevel.names))
      criticalityScore := ← fs.given? "criticality_score" none (optional? byte?)
      estimatedStart := ← fs.given? "estimated_start_date" none (optional? instant?)
      estimatedEnd := ← fs.given? "estimated_end_date" none (optional? instant?)
      estimatedDuration := ← fs.given? "estimated_duration" none (optional? duration?)
      contingencyPlans := ← fs.given? "contingency_plans" none (optional? (list? text?)) }

end MilestoneEdit

/-! ## Dependencies and progress -/

namespace Dependency

/-- The names of the fields, in order. -/
def fieldNames : List String := ["id", "milestone_id", "depends_on_id", "dependency_type"]

/-- Writes a dependency. -/
def toDatum (e : Dependency) : Datum :=
  record
    [("id", ofId e.id),
      ("milestone_id", ofId e.milestoneId),
      ("depends_on_id", ofId e.dependsOnId),
      ("dependency_type", text e.kind.name)]

/-- Reads a dependency. -/
def ofDatum? (l : Leniency) (d : Datum) : Option Dependency := do
  let fs ← d.fields? l fieldNames
  some
    { id := ← fs.required? "id" id?
      milestoneId := ← fs.required? "milestone_id" id?
      dependsOnId := ← fs.required? "depends_on_id" id?
      kind := ← fs.given? "dependency_type" .prerequisite (name? l DependencyKind.names) }

end Dependency

namespace ProgressUpdate

/-- Writes a progress update. -/
def toDatum (u : ProgressUpdate) : Datum :=
  record
    [("milestone_id", ofId u.milestoneId), ("percentage_complete", float u.percentageComplete)]

/-- Reads a progress update. -/
def ofDatum? (d : Datum) : Option ProgressUpdate := do
  let fs ← d.fields? .strict ["milestone_id", "percentage_complete"]
  some
    { milestoneId := ← fs.required? "milestone_id" id?
      percentageComplete := ← fs.required? "percentage_complete" float? }

end ProgressUpdate

namespace ProgressReading

/-- Writes a progress reading. -/
def toDatum (r : ProgressReading) : Datum :=
  record
    [("milestone_id", ofId r.milestoneId),
      ("percentage_complete", float r.percentageComplete),
      ("recorded_at", ofInstant r.recordedAt)]

/-- Reads a progress reading. -/
def ofDatum? (d : Datum) : Option ProgressReading := do
  let fs ← d.fields? .strict ["milestone_id", "percentage_complete", "recorded_at"]
  some
    { milestoneId := ← fs.required? "milestone_id" id?
      percentageComplete := ← fs.required? "percentage_complete" float?
      recordedAt := ← fs.required? "recorded_at" instant? }

end ProgressReading

/-! ## Snapshots -/

namespace Snapshot

/-- Writes a snapshot. -/
def toDatum (s : Snapshot) : Datum :=
  record
    [("contract_id", ofId s.contractId),
      ("milestones", list (s.milestones.map Milestone.toDatum)),
      ("dependencies", list (s.dependencies.map Dependency.toDatum)),
      ("progress_history", list (s.progressHistory.map ProgressReading.toDatum))]

/-- Reads a snapshot. -/
def ofDatum? (d : Datum) : Option Snapshot := do
  let fs ← d.fields? .strict ["contract_id", "milestones", "dependencies", "progress_history"]
  some
    { contractId := ← fs.required? "contract_id" id?
      milestones := ← fs.given? "milestones" [] (list? (Milestone.ofDatum? .strict))
      dependencies := ← fs.given? "dependencies" [] (list? (Dependency.ofDatum? .strict))
      progressHistory := ← fs.given? "progress_history" [] (list? ProgressReading.ofDatum?) }

end Snapshot

end Milestones
