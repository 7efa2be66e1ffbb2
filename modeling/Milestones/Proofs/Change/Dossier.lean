import Milestones.Proofs.Change.Commit
import Milestones.Proofs.Change.Frame

/-!
# What becomes of one milestone

The records of a contract hold two things about a milestone: its record, while it is there, and its
entries in the journal, which outlast it.  A step of planning that is about other milestones leaves
both alone, and one that is about this milestone does to them what it would do without any others.
So what is to be shown of the life of a milestone can be shown of these two things alone.

## Main definitions

* `Dossier`: what is stored about one milestone.
* `Dossier.Change`: what a change about one milestone or one dependency does to it.

## Main statements

* `Draft.Step.change`: every step of planning is such a change for every milestone.
-/

namespace Milestones

/-- What is stored about one milestone: its record if it is there, and its entries in the journal,
oldest first. -/
structure Dossier where
  milestone : Option Milestone
  readings : List ProgressReading

/-- What the records hold about a milestone. -/
def ContractRecords.dossier (r : ContractRecords) (id : MilestoneId) : Dossier :=
  ⟨r.milestones.get? id, r.history.filter fun e => e.milestoneId == id⟩

theorem ContractRecords.milestone_dossier {r : ContractRecords} {m : Milestone}
    (hm : m ∈ r.milestones.toList) : (r.dossier m.id).milestone = some m :=
  Table.mem_toList_iff_get?.1 hm

namespace Dossier

/-- What a change about one milestone or one dependency does to what is stored about the milestone
`id`, with what was checked. -/
inductive Change (now : Instant) (id : MilestoneId) : Mutation → Dossier → Dossier → Prop
  /-- The change is about a dependency or another milestone. -/
  | other {x : Mutation} {d : Dossier} (hid : id ∉ x.subjects) : Change now id x d d
  | keep {m : Milestone} {rs : List ProgressReading} :
      Change now id (.setStatus [id] m.status) ⟨some m, rs⟩ ⟨some m, rs⟩
  | move {m m' : Milestone} {target : Status} {rs : List ProgressReading}
      (hne : m.status ≠ target) (hmove : m.moveTo target now = .ok m') :
      Change now id (.setStatus [id] target) ⟨some m, rs⟩ ⟨some m', rs⟩
  | record {m m' : Milestone} {value : Float} {rs : List ProgressReading}
      (hrecord : m.recordProgress value now = .ok m') :
      Change now id (.setProgress [⟨id, value⟩]) ⟨some m, rs⟩ ⟨some m', rs ++ [⟨id, value, now⟩]⟩
  | create {m : Milestone} {rs : List ProgressReading} (hid : m.id = id)
      (hduration : ∀ span ∈ m.estimatedDuration, .zero ≤ span) :
      Change now id (.createMilestone m) ⟨none, rs⟩ ⟨some { m with criticalPath := false }, rs⟩
  | edit {m : Milestone} {edit : MilestoneEdit} {rs : List ProgressReading}
      (hduration : ∀ span ∈ edit.estimatedDuration, .zero ≤ span) :
      Change now id (.updateMilestone id edit) ⟨some m, rs⟩ ⟨some (edit.apply m), rs⟩
  | delete {m : Milestone} {rs : List ProgressReading} :
      Change now id (.deleteMilestone id) ⟨some m, rs⟩ ⟨none, rs⟩

end Dossier

/-- The readings of a change are about milestones that it is about. -/
theorem Mutation.mem_subjects_of_readings {now : Instant} {x : Mutation} {e : ProgressReading}
    (he : e ∈ x.readings now) : e.milestoneId ∈ x.subjects := by
  cases x with
  | setProgress updates =>
    obtain ⟨u, hu, rfl⟩ := List.mem_map.1 he
    exact List.mem_map_of_mem hu
  | _ => cases he

namespace Draft

variable {now : Instant} {d d' : Draft}

@[simp] theorem get?_put (d : Draft) (m : Milestone) (id : MilestoneId) :
    (d.put m).milestones.get? id = if m.id = id then some m else d.milestones.get? id :=
  Table.get?_insert d.milestones m id

@[simp] theorem dossier_records (d : Draft) (history : List ProgressReading) (id : MilestoneId) :
    (d.records history).dossier id =
      ⟨d.milestones.get? id, history.filter fun e => e.milestoneId == id⟩ := rfl

/-- A step leaves the milestones alone that its change is not about. -/
theorem Step.get?_milestones {x : Mutation} {ws : List Write} (h : Step now d x ws d')
    {id : MilestoneId} (hid : id ∉ x.subjects) : d'.milestones.get? id = d.milestones.get? id := by
  have hput : ∀ {m m' : Milestone}, m'.id = m.id → id ∉ [m.id] →
      (d.put m').milestones.get? id = d.milestones.get? id := by
    intro m m' hsame hne
    rw [get?_put, if_neg]
    exact fun heq => hne (List.mem_singleton.2 (heq.symm.trans hsame))
  cases h with
  | keep => rfl
  | move _ _ hmove => exact hput (Milestone.sameButStanding_of_moveTo hmove).id_eq hid
  | record _ hrecord => exact hput (Milestone.sameButStanding_of_recordProgress hrecord).id_eq hid
  | create => exact hput rfl hid
  | @edit m edit => exact hput (edit.id_apply m) hid
  | delete => rw [Table.get?_erase, if_neg fun heq => hid (List.mem_singleton.2 heq.symm)]
  | join => rfl
  | part => rfl

/-- A step that is about a milestone changes what is stored about it. -/
theorem Step.change_of_mem {x : Mutation} {ws : List Write} (h : Step now d x ws d')
    {id : MilestoneId} (hid : id ∈ x.subjects) (history : List ProgressReading) :
    Dossier.Change now id x ((d.records history).dossier id)
      ((d'.records (history ++ x.readings now)).dossier id) := by
  cases h with
  | keep hfind =>
    obtain rfl := List.mem_singleton.1 hid
    simp only [dossier_records, get?_of_find hfind, Mutation.readings, List.append_nil]
    exact .keep
  | move hfind hne hmove =>
    obtain rfl := List.mem_singleton.1 hid
    have hsame := (Milestone.sameButStanding_of_moveTo hmove).id_eq
    simp only [dossier_records, get?_of_find hfind, get?_put, hsame, if_true, Mutation.readings,
      List.append_nil]
    exact .move hne hmove
  | record hfind hrecord =>
    obtain rfl := List.mem_singleton.1 hid
    have hsame := (Milestone.sameButStanding_of_recordProgress hrecord).id_eq
    simp only [dossier_records, get?_of_find hfind, get?_put, hsame, if_true, Mutation.readings,
      List.map_cons, List.map_nil, List.filter_append, List.filter_cons, beq_self_eq_true,
      List.filter_nil]
    exact .record hrecord
  | create _ hnew _ hduration =>
    obtain rfl := List.mem_singleton.1 hid
    have hnone := Option.not_isSome_iff_eq_none.1 (Bool.not_eq_true _ ▸ hnew)
    simp only [dossier_records, hnone, get?_put, if_true, Mutation.readings, List.append_nil]
    exact .create rfl hduration
  | @edit m edit hfind hduration =>
    obtain rfl := List.mem_singleton.1 hid
    simp only [dossier_records, get?_of_find hfind, get?_put, edit.id_apply, if_true,
      Mutation.readings, List.append_nil]
    exact .edit hduration
  | delete hfind =>
    obtain rfl := List.mem_singleton.1 hid
    simp only [dossier_records, get?_of_find hfind, Table.get?_erase, if_true, Mutation.readings,
      List.append_nil]
    exact .delete
  | join => cases hid
  | part => cases hid

/-- Every step of planning is a change of what is stored about each milestone. -/
theorem Step.change {x : Mutation} {ws : List Write} (h : Step now d x ws d') (id : MilestoneId)
    (history : List ProgressReading) :
    Dossier.Change now id x ((d.records history).dossier id)
      ((d'.records (history ++ x.readings now)).dossier id) := by
  by_cases hid : id ∈ x.subjects
  · exact h.change_of_mem hid history
  · have hreadings : (x.readings now).filter (fun e => e.milestoneId == id) = [] := by
      refine List.filter_eq_nil_iff.2 fun e he heq => hid ?_
      rw [← eq_of_beq heq]
      exact Mutation.mem_subjects_of_readings he
    rw [dossier_records, dossier_records, h.get?_milestones hid, List.filter_append, hreadings,
      List.append_nil]
    exact .other hid

end Draft

end Milestones
