import Milestones.Contract.Written
import Milestones.Proofs.Datum
import Milestones.Proofs.RecordId
import Milestones.Proofs.Time.Text

/-!
# Records of a contract that are read back

Every record of a contract is read back as it was, except that its durations are cut to whole
seconds, and that cut record is written the same way.  Its floats have to be finite for that.

## Main definitions

* `Milestone.toWholeSeconds`, and the same for the other records with durations.
* `Milestone.IsFinite`, and the same for the other records with floats.

## Main statements

* `Duration.readsBack`: a duration, at whole seconds.
* `Milestone.readsBack`, and the same for the other records.
-/

namespace Milestones

open Datum

/-! ## Parts of records -/

namespace Datum.ReadsBack

variable {α : Type} {write : α → Datum} {read : Datum → Option α} {cut : α → α}

theorem optional?_eq_some {d : Datum} {a : α} (hnull : read null = none) (h : read d = some a) :
    optional? read d = some (some a) := by
  cases d with
  | null => cases hnull.symm.trans h
  | _ => exact congrArg (Option.map some) h

/-- An optional value is read back if the value is, and if its reader does not take null. -/
theorem ofOption_map {o : Option α} (hnull : read null = none)
    (h : ∀ a ∈ o, ReadsBack write read a (cut a)) :
    ReadsBack (Datum.ofOption write) (optional? read) o (o.map cut) where
  read_eq := by
    cases o with
    | none => rfl
    | some a => exact optional?_eq_some hnull (h a rfl).read_eq
  write_eq := by
    cases o with
    | none => rfl
    | some a => exact (h a rfl).write_eq

theorem ofOption {o : Option α} (hnull : read null = none)
    (h : ∀ a ∈ o, ReadsBack write read a a) :
    ReadsBack (Datum.ofOption write) (optional? read) o o := by
  simpa using ofOption_map hnull h

end Datum.ReadsBack

/-- The cut leaves the whole seconds. -/
theorem Duration.seconds_toWholeSeconds (d : Duration) : d.toWholeSeconds.seconds = d.seconds :=
  Int.mul_tdiv_cancel _ (by decide)

/-- A duration keeps its whole seconds, which are in range at both ends. -/
theorem Duration.readsBack (d : Duration) :
    ReadsBack ofDuration duration? d d.toWholeSeconds where
  read_eq := by
    have hlimit := d.natAbs_le
    have habs : d.seconds.natAbs = d.nanos.natAbs / 1000000000 := Int.natAbs_tdiv _ _
    have hseconds : -9223372036854775808 ≤ d.seconds ∧ d.seconds ≤ 9223372036854775807 := by
      simp only [maxNanos] at hlimit
      omega
    change (intIn? _ _ (int d.seconds)).bind ofSeconds? = _
    rw [intIn?, if_pos hseconds, Option.bind_some, ofSeconds?, ofNanos?_eq_some_iff]
    rfl
  write_eq := by
    rw [ofDuration, seconds_toWholeSeconds, ofDuration]

theorem RecordId.readsBack {kind : RecordKind} (id : RecordId kind) : ReadsBack ofId id? id id :=
  ⟨id.ofText?_text, rfl⟩

theorem Instant.readsBack (t : Instant) : ReadsBack ofInstant instant? t t :=
  ⟨t.ofLooseText?_text, rfl⟩

namespace Datum

theorem readsBack_text (s : String) : ReadsBack text text? s s := ⟨rfl, rfl⟩

theorem readsBack_bool (b : Bool) : ReadsBack bool bool? b b := ⟨rfl, rfl⟩

theorem readsBack_float {x : Float} (hx : x.isFinite = true) : ReadsBack float float? x x where
  read_eq := by
    rw [jsonForm_float hx]
    rfl
  write_eq := rfl

/-- A whole number within bounds is read back if what is made of it is the value again. -/
theorem readsBack_intIn {α : Type} {least most : Int} {write : α → Int} {make : Int → α} (a : α)
    (hbounds : least ≤ write a ∧ write a ≤ most) (hmake : make (write a) = a) :
    ReadsBack (fun a => int (write a)) (fun d => (intIn? least most d).map make) a a where
  read_eq := by
    change (intIn? _ _ (int (write a))).map make = _
    rw [intIn?, if_pos hbounds, Option.map_some, hmake]
  write_eq := rfl

theorem readsBack_int32 (n : Int32) : ReadsBack (fun n => int n.toInt) int32? n n :=
  readsBack_intIn n ⟨n.le_toInt, Int.le_of_lt_add_one n.toInt_lt⟩ (Int32.ofInt_toInt n)

theorem readsBack_byte (n : UInt8) : ReadsBack (fun n => int n.toNat) byte? n n :=
  readsBack_intIn n (by have := n.toNat_lt; omega) UInt8.ofNat_toNat

end Datum

/-! ## Optional parts -/

theorem Datum.readsBack_ofOption_text (o : Option String) :
    ReadsBack (ofOption text) (optional? text?) o o :=
  .ofOption rfl fun s _ => readsBack_text s

theorem Instant.readsBack_ofOption (o : Option Instant) :
    ReadsBack (ofOption ofInstant) (optional? instant?) o o :=
  .ofOption rfl fun t _ => t.readsBack

theorem Duration.readsBack_ofOption (o : Option Duration) :
    ReadsBack (ofOption ofDuration) (optional? duration?) o (o.map toWholeSeconds) :=
  .ofOption_map rfl fun d _ => d.readsBack

/-! ## Names -/

theorem RiskLevel.readsBack (l : Leniency) (x : RiskLevel) :
    ReadsBack (fun x => text x.name) (name? l names) x x := by
  cases x <;> exact ⟨rfl, rfl⟩

theorem Status.readsBack (l : Leniency) (x : Status) :
    ReadsBack (fun x => text x.name) (name? l names) x x := by
  cases x <;> exact ⟨rfl, rfl⟩

theorem DependencyKind.readsBack (l : Leniency) (x : DependencyKind) :
    ReadsBack (fun x => text x.name) (name? l names) x x := by
  cases x <;> exact ⟨rfl, rfl⟩

/-! ## Milestones -/

namespace Milestone

/-- The milestone with its durations cut to whole seconds. -/
def toWholeSeconds (m : Milestone) : Milestone :=
  { m with
    estimatedDuration := m.estimatedDuration.map Duration.toWholeSeconds
    actualDuration := m.actualDuration.map Duration.toWholeSeconds }

/-- The progress is finite. -/
def IsFinite (m : Milestone) : Prop := m.percentageComplete.isFinite = true

theorem readsBack (l : Leniency) {m : Milestone} (hm : m.IsFinite) :
    ReadsBack toDatum (ofDatum? l) m m.toWholeSeconds := by
  constructor
  -- one line for each field, in the order of the reader
  · refine fields?_record_bind (by decide) rfl ?_
    refine Fields.required?_bind m.id.readsBack rfl ?_
    refine Fields.required?_bind m.contractId.readsBack rfl ?_
    refine Fields.required?_bind (readsBack_text _) rfl ?_
    refine Fields.given?_bind (readsBack_text _) rfl ?_
    refine Fields.given?_bind (readsBack_int32 _) rfl ?_
    refine Fields.given?_bind (.list fun id _ => id.readsBack) rfl ?_
    refine Fields.given?_bind (readsBack_ofOption_text _) rfl ?_
    refine Fields.given?_bind (readsBack_int32 _) rfl ?_
    refine Fields.given?_bind (m.riskLevel.readsBack l) rfl ?_
    refine Fields.given?_bind (readsBack_byte _) rfl ?_
    refine Fields.given?_bind (m.status.readsBack l) rfl ?_
    refine Fields.given?_bind (readsBack_bool _) rfl ?_
    refine Fields.given?_bind (Instant.readsBack_ofOption _) rfl ?_
    refine Fields.given?_bind (Instant.readsBack_ofOption _) rfl ?_
    refine Fields.given?_bind (Instant.readsBack_ofOption _) rfl ?_
    refine Fields.given?_bind (Instant.readsBack_ofOption _) rfl ?_
    refine Fields.given?_bind (Duration.readsBack_ofOption _) rfl ?_
    refine Fields.given?_bind (Duration.readsBack_ofOption _) rfl ?_
    refine Fields.given?_bind (readsBack_float hm) rfl ?_
    refine Fields.given?_bind (.list fun s _ => readsBack_text s) rfl ?_
    rfl
  · simp only [toDatum, toWholeSeconds, (Duration.readsBack_ofOption _).write_eq]

end Milestone

namespace MilestoneEdit

/-- The edit with its duration cut to whole seconds. -/
def toWholeSeconds (e : MilestoneEdit) : MilestoneEdit :=
  { e with estimatedDuration := e.estimatedDuration.map Duration.toWholeSeconds }

theorem readsBack (l : Leniency) (e : MilestoneEdit) :
    ReadsBack toDatum (ofDatum? l) e e.toWholeSeconds := by
  constructor
  · refine fields?_record_bind (by decide) rfl ?_
    refine Fields.given?_bind (readsBack_ofOption_text _) rfl ?_
    refine Fields.given?_bind (readsBack_ofOption_text _) rfl ?_
    refine Fields.given?_bind (.ofOption rfl fun n _ => readsBack_int32 n) rfl ?_
    refine Fields.given?_bind (readsBack_ofOption_text _) rfl ?_
    refine Fields.given?_bind (.ofOption rfl fun n _ => readsBack_int32 n) rfl ?_
    refine Fields.given?_bind (.ofOption rfl fun x _ => x.readsBack l) rfl ?_
    refine Fields.given?_bind (.ofOption rfl fun n _ => readsBack_byte n) rfl ?_
    refine Fields.given?_bind (Instant.readsBack_ofOption _) rfl ?_
    refine Fields.given?_bind (Instant.readsBack_ofOption _) rfl ?_
    refine Fields.given?_bind (Duration.readsBack_ofOption _) rfl ?_
    refine Fields.given?_bind (.ofOption rfl fun _ _ => .list fun s _ => readsBack_text s) rfl ?_
    rfl
  · simp only [toDatum, toWholeSeconds, (Duration.readsBack_ofOption _).write_eq]

end MilestoneEdit

/-! ## Dependencies and progress -/

theorem Dependency.readsBack (l : Leniency) (e : Dependency) :
    ReadsBack toDatum (ofDatum? l) e e := by
  constructor
  · refine fields?_record_bind (by decide) rfl ?_
    refine Fields.required?_bind e.id.readsBack rfl ?_
    refine Fields.required?_bind e.milestoneId.readsBack rfl ?_
    refine Fields.required?_bind e.dependsOnId.readsBack rfl ?_
    refine Fields.given?_bind (e.kind.readsBack l) rfl ?_
    rfl
  · rfl

/-- The progress is finite. -/
def ProgressUpdate.IsFinite (u : ProgressUpdate) : Prop := u.percentageComplete.isFinite = true

theorem ProgressUpdate.readsBack {u : ProgressUpdate} (hu : u.IsFinite) :
    ReadsBack toDatum ofDatum? u u := by
  constructor
  · refine fields?_record_bind (by decide) rfl ?_
    refine Fields.required?_bind u.milestoneId.readsBack rfl ?_
    refine Fields.required?_bind (readsBack_float hu) rfl ?_
    rfl
  · rfl

/-- The progress is finite. -/
def ProgressReading.IsFinite (r : ProgressReading) : Prop := r.percentageComplete.isFinite = true

theorem ProgressReading.readsBack {r : ProgressReading} (hr : r.IsFinite) :
    ReadsBack toDatum ofDatum? r r := by
  constructor
  · refine fields?_record_bind (by decide) rfl ?_
    refine Fields.required?_bind r.milestoneId.readsBack rfl ?_
    refine Fields.required?_bind (readsBack_float hr) rfl ?_
    refine Fields.required?_bind r.recordedAt.readsBack rfl ?_
    rfl
  · rfl

/-! ## Snapshots -/

namespace Snapshot

/-- The snapshot with the durations of its milestones cut to whole seconds. -/
def toWholeSeconds (s : Snapshot) : Snapshot :=
  { s with milestones := s.milestones.map Milestone.toWholeSeconds }

/-- All progress is finite. -/
def IsFinite (s : Snapshot) : Prop :=
  (∀ m ∈ s.milestones, m.IsFinite) ∧ ∀ r ∈ s.progressHistory, r.IsFinite

theorem readsBack {s : Snapshot} (hs : s.IsFinite) :
    ReadsBack toDatum ofDatum? s s.toWholeSeconds := by
  have hmilestones := ReadsBack.list_map fun m hm => Milestone.readsBack .strict (hs.1 m hm)
  constructor
  · refine fields?_record_bind (by decide) rfl ?_
    refine Fields.required?_bind s.contractId.readsBack rfl ?_
    refine Fields.given?_bind hmilestones rfl ?_
    refine Fields.given?_bind (.list fun e _ => e.readsBack .strict) rfl ?_
    refine Fields.given?_bind (.list fun r hr => ProgressReading.readsBack (hs.2 r hr)) rfl ?_
    rfl
  · rw [toDatum, toDatum, toWholeSeconds]
    simp only [hmilestones.write_eq]

end Snapshot

end Milestones
