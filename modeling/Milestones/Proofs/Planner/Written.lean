import Milestones.Planner.Settings
import Milestones.Proofs.Change.Written

/-!
# Settings that are read back

With the settings of a planner, every record that has a written form is read back.

## Main definitions

* `RiskWeights.toWholeSeconds`, `Settings.toWholeSeconds`: with durations cut to whole seconds.
* `RiskWeights.IsFinite`, `Settings.IsFinite`: the weights are finite.

## Main statements

* `RiskWeights.readsBack`, `Settings.readsBack`.
* `Datum.readsBack_records`: all records at once.
-/

namespace Milestones

open Datum

theorem Datum.readsBack_word (n : UInt64) : ReadsBack (fun n => int n.toNat) word? n n :=
  readsBack_intIn n (by have := n.toNat_lt; omega) UInt64.ofNat_toNat

namespace RiskWeights

/-- The weights with the horizon cut to whole seconds. -/
def toWholeSeconds (w : RiskWeights) : RiskWeights :=
  { w with slackHorizon := w.slackHorizon.toWholeSeconds }

/-- Both weights are finite. -/
def IsFinite (w : RiskWeights) : Prop := w.criticality.isFinite = true ∧ w.slack.isFinite = true

theorem readsBack (l : Leniency) {w : RiskWeights} (hw : w.IsFinite) :
    ReadsBack toDatum (ofDatum? l) w w.toWholeSeconds := by
  constructor
  · refine fields?_record_bind (by decide) rfl ?_
    refine Fields.given?_bind (readsBack_float hw.1) rfl ?_
    refine Fields.given?_bind (readsBack_float hw.2) rfl ?_
    refine Fields.given?_bind w.slackHorizon.readsBack rfl ?_
    rfl
  · rw [toDatum, toDatum, toWholeSeconds, w.slackHorizon.readsBack.write_eq]

end RiskWeights

namespace Settings

/-- The settings with all durations cut to whole seconds. -/
def toWholeSeconds (s : Settings) : Settings :=
  { s with
    cacheTtl := s.cacheTtl.map Duration.toWholeSeconds
    riskWeights := s.riskWeights.toWholeSeconds
    trendBucket := s.trendBucket.toWholeSeconds }

/-- The weights are finite. -/
def IsFinite (s : Settings) : Prop := s.riskWeights.IsFinite

theorem readsBack (l : Leniency) {s : Settings} (hs : s.IsFinite) :
    ReadsBack toDatum (ofDatum? l) s s.toWholeSeconds := by
  have httl := Duration.readsBack_ofOption s.cacheTtl
  have hweights := RiskWeights.readsBack l hs
  constructor
  · refine fields?_record_bind (by decide) rfl ?_
    refine Fields.given?_bind (readsBack_word _) rfl ?_
    refine Fields.given?_bind httl rfl ?_
    refine Fields.given?_bind (Instant.readsBack_ofOption _) rfl ?_
    refine Fields.given?_bind hweights rfl ?_
    refine Fields.given?_bind s.trendBucket.readsBack rfl ?_
    refine Fields.given?_bind (readsBack_bool _) rfl ?_
    rfl
  · simp only [toDatum, toWholeSeconds, httl.write_eq, hweights.write_eq,
      s.trendBucket.readsBack.write_eq]

end Settings

/-! ## All records -/

/-- Every record with finite floats is read back from its JSON form.  What is read differs from what
was written only in that all durations are cut toward zero to whole seconds, and if it is written
again, the result is the same as the first time. -/
theorem Datum.readsBack_records (l : Leniency) :
    (∀ m : Milestone, m.IsFinite →
      ReadsBack Milestone.toDatum (Milestone.ofDatum? l) m m.toWholeSeconds) ∧
    (∀ e : MilestoneEdit,
      ReadsBack MilestoneEdit.toDatum (MilestoneEdit.ofDatum? l) e e.toWholeSeconds) ∧
    (∀ e : Dependency, ReadsBack Dependency.toDatum (Dependency.ofDatum? l) e e) ∧
    (∀ u : ProgressUpdate, u.IsFinite →
      ReadsBack ProgressUpdate.toDatum ProgressUpdate.ofDatum? u u) ∧
    (∀ r : ProgressReading, r.IsFinite →
      ReadsBack ProgressReading.toDatum ProgressReading.ofDatum? r r) ∧
    (∀ s : Snapshot, s.IsFinite →
      ReadsBack Snapshot.toDatum Snapshot.ofDatum? s s.toWholeSeconds) ∧
    (∀ x : Mutation, x.IsFinite →
      ReadsBack Mutation.toDatum Mutation.ofDatum? x x.toWholeSeconds) ∧
    (∀ b : Batch, b.IsFinite → ReadsBack Batch.toDatum Batch.ofDatum? b b.toWholeSeconds) ∧
    (∀ w : RiskWeights, w.IsFinite →
      ReadsBack RiskWeights.toDatum (RiskWeights.ofDatum? l) w w.toWholeSeconds) ∧
    (∀ s : Settings, s.IsFinite →
      ReadsBack Settings.toDatum (Settings.ofDatum? l) s s.toWholeSeconds) :=
  ⟨fun _ hm => Milestone.readsBack l hm, fun e => e.readsBack l, fun e => e.readsBack l,
    fun _ hu => ProgressUpdate.readsBack hu, fun _ hr => ProgressReading.readsBack hr,
    fun _ hs => Snapshot.readsBack hs, fun _ hx => Mutation.readsBack hx,
    fun _ hb => Batch.readsBack hb, fun _ hw => RiskWeights.readsBack l hw,
    fun _ hs => Settings.readsBack l hs⟩

/-! Durations at both ends, and one that is not a second long. -/

/-- A milestone that took the longest time, although less than none was planned for it. -/
def overrun : Milestone where
  id := 1
  contractId := 2
  title := "survey"
  estimatedDuration := some ⟨-1, by decide⟩
  actualDuration := some .longest
  percentageComplete := 0.5

/-- A snapshot with that milestone. -/
def overrunSnapshot : Snapshot where
  contractId := 2
  milestones := [overrun]
  progressHistory := [⟨1, 0.25, .epoch⟩]

/-- A batch that creates that milestone, plans the shortest duration and records progress. -/
def overrunBatch : Batch where
  contractId := 2
  mutations :=
    [.createMilestone overrun,
      .updateMilestone 1 { estimatedDuration := some ⟨-Duration.maxNanos, by decide⟩ },
      .setProgress [⟨1, 1⟩]]

/-- Settings that forget as late as possible. -/
def patientSettings : Settings where
  cacheTtl := some .longest
  riskWeights := { slackHorizon := ⟨1500000000, by decide⟩ }

theorem isFinite_overrunSnapshot : overrunSnapshot.IsFinite := by
  constructor
  · intro m hm
    rw [List.mem_singleton.1 hm]
    rfl
  · intro r hr
    rw [List.mem_singleton.1 hr]
    rfl

theorem isFinite_overrunBatch : overrunBatch.IsFinite := by
  intro x hx
  rcases List.mem_cons.1 hx with rfl | hx
  · rfl
  rcases List.mem_cons.1 hx with rfl | hx
  · trivial
  rw [List.mem_singleton.1 hx]
  intro u hu
  rw [List.mem_singleton.1 hu]
  rfl

/-- The nanosecond is lost, and so is the last part of a second at both ends of the range. -/
theorem readsBack_overrun :
    ReadsBack Milestone.toDatum (Milestone.ofDatum? .strict) overrun
        { overrun with
          estimatedDuration := some .zero
          actualDuration := some ⟨9223372036854775000000000, by decide⟩ } ∧
      ReadsBack ProgressUpdate.toDatum ProgressUpdate.ofDatum? ⟨1, 1⟩ ⟨1, 1⟩ ∧
      ReadsBack ProgressReading.toDatum ProgressReading.ofDatum? ⟨1, 0.25, .epoch⟩
        ⟨1, 0.25, .epoch⟩ ∧
      ReadsBack Snapshot.toDatum Snapshot.ofDatum? overrunSnapshot
        overrunSnapshot.toWholeSeconds ∧
      ReadsBack Mutation.toDatum Mutation.ofDatum? (.createMilestone overrun)
        (.createMilestone overrun.toWholeSeconds) ∧
      ReadsBack Batch.toDatum Batch.ofDatum? overrunBatch overrunBatch.toWholeSeconds ∧
      ReadsBack RiskWeights.toDatum (RiskWeights.ofDatum? .strict) patientSettings.riskWeights
        { slackHorizon := .second } ∧
      ReadsBack Settings.toDatum (Settings.ofDatum? .toml) patientSettings
        patientSettings.toWholeSeconds := by
  obtain ⟨hmilestone, -, -, hupdate, hreading, hsnapshot, hmutation, hbatch, hweights, -⟩ :=
    Datum.readsBack_records .strict
  obtain ⟨-, -, -, -, -, -, -, -, -, hsettings⟩ := Datum.readsBack_records .toml
  have hpatient : patientSettings.IsFinite := ⟨rfl, rfl⟩
  exact ⟨hmilestone overrun rfl, hupdate _ rfl, hreading _ rfl,
    hsnapshot _ isFinite_overrunSnapshot, hmutation (.createMilestone overrun) rfl,
    hbatch _ isFinite_overrunBatch, hweights _ hpatient, hsettings _ hpatient⟩

end Milestones
