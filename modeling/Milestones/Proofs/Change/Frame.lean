import Milestones.Proofs.Change.Planning
import Milestones.Proofs.Store

/-!
# What a batch leaves alone

A write is about some milestones, or about one dependency, and leaves all others as they are.  The
writes that planning takes for a change are about the milestones that the change is about.  They
delete a dependency only where the change removes it or deletes a milestone at one of its ends, and
they never put a dependency in the place of another one.

## Main definitions

* `Write.milestones`, `Mutation.subjects`: the milestones that a write and a change are about.
* `Mutation.Drops`: a change takes a dependency away.

## Main statements

* `ContractRecords.get?_milestones_of_applyAll`, `ContractRecords.get?_dependencies_of_applyAll`:
  what writes leave alone.
* `Draft.Steps.exists_mem_subjects`, `Draft.Steps.deleteDependency_notMem`: what the writes of
  steps in a row are about.
-/

namespace Milestones

open Outcome

/-! ## Writes -/

/-- The milestones that a write stores, changes or removes. -/
def Write.milestones : Write → List MilestoneId
  | insertMilestone m | replaceMilestone m => [m.id]
  | deleteMilestone id => [id]
  | setStatus ids _ => ids
  | setProgress update _ => [update.milestoneId]
  | insertDependency _ | deleteDependency _ => []

namespace ContractRecords

variable {r r' : ContractRecords}

/-- A change that keeps identifiers is a change of one milestone. -/
theorem get?_milestones_of_changeMilestone {id : MilestoneId} {change : Milestone → Milestone}
    (hchange : ∀ m, (change m).id = m.id) (h : r.changeMilestone id change = .ok r')
    {id' : MilestoneId} (hne : id' ≠ id) : r'.milestones.get? id' = r.milestones.get? id' := by
  obtain ⟨m, hm, rfl⟩ := changeMilestone_eq_ok h
  have hid : recordId (change m) ≠ id' := by
    rw [show recordId (change m) = m.id from hchange m, show m.id = id from Table.recordId_of_get? hm]
    exact hne.symm
  rw [Table.get?_insert, if_neg hid]

/-- A write leaves the milestones alone that it is not about. -/
theorem get?_milestones_of_apply {w : Write} (h : r.apply w = .ok r') {id : MilestoneId}
    (hid : id ∉ w.milestones) : r'.milestones.get? id = r.milestones.get? id := by
  cases w with
  | insertMilestone m =>
    simp only [apply] at h
    split at h
    · cases h
    split at h <;> cases h
    rw [Table.get?_insert, if_neg fun hm => hid (List.mem_singleton.2 hm.symm)]
  | replaceMilestone m =>
    obtain ⟨-, -, rfl⟩ := apply_replaceMilestone_eq_ok h
    rw [Table.get?_insert, if_neg fun hm => hid (List.mem_singleton.2 hm.symm)]
  | deleteMilestone id' =>
    simp only [apply] at h
    split at h <;> cases h
    rw [Table.get?_erase, if_neg fun hm => hid (List.mem_singleton.2 hm.symm)]
  | insertDependency e =>
    simp only [apply] at h
    split at h <;> cases h
    rfl
  | deleteDependency id' =>
    simp only [apply] at h
    split at h <;> cases h
    rfl
  | setStatus ids status =>
    refine foldlM_invariant_of_mem (fun x => x.milestones.get? id = r.milestones.get? id)
      (fun id' hid' x x' hx hx' => ?_) rfl h
    have hne : id ≠ id' := fun e => hid (e ▸ hid')
    exact (get?_milestones_of_changeMilestone (by exact fun _ => rfl) hx' hne).trans hx
  | setProgress update recordedAt =>
    obtain ⟨r₁, h₁, h⟩ := bind_eq_ok.1 h
    cases h
    have hne : id ≠ update.milestoneId := fun e => hid (List.mem_singleton.2 e)
    exact get?_milestones_of_changeMilestone (by exact fun _ => rfl) h₁ hne

/-- A write leaves a dependency alone unless it deletes it. -/
theorem get?_dependencies_of_apply {w : Write} (h : r.apply w = .ok r') {e : Dependency}
    (he : r.dependencies.get? e.id = some e) (hw : w ≠ .deleteDependency e.id) :
    r'.dependencies.get? e.id = some e := by
  cases w with
  | insertDependency x =>
    simp only [apply] at h
    split at h
    · cases h
    · rename_i hnew
      cases h
      have hne : recordId x ≠ e.id := by
        intro hx
        rw [← hx] at he
        exact hnew (Table.contains_iff_get?.2 ⟨e, he⟩)
      rw [Table.get?_insert, if_neg hne]
      exact he
  | deleteDependency id =>
    simp only [apply] at h
    split at h <;> cases h
    have hne : id ≠ e.id := fun hid => hw (congrArg Write.deleteDependency hid)
    rw [Table.get?_erase, if_neg hne]
    exact he
  | replaceMilestone m =>
    obtain ⟨-, -, rfl⟩ := apply_replaceMilestone_eq_ok h
    exact he
  | setStatus ids status =>
    refine foldlM_invariant (fun x => x.dependencies.get? e.id = some e)
      (fun x id x' hx hx' => ?_) he h
    obtain ⟨m, -, rfl⟩ := changeMilestone_eq_ok hx'
    exact hx
  | setProgress update recordedAt =>
    obtain ⟨r₁, h₁, h⟩ := bind_eq_ok.1 h
    obtain ⟨m, -, rfl⟩ := changeMilestone_eq_ok h₁
    cases h
    exact he
  | insertMilestone m =>
    simp only [apply] at h
    split at h
    · cases h
    split at h <;> cases h
    exact he
  | deleteMilestone id =>
    simp only [apply] at h
    split at h <;> cases h
    exact he

/-- Writes leave the milestones alone that none of them is about. -/
theorem get?_milestones_of_applyAll {ws : List Write} (h : r.applyAll ws = .ok r')
    {id : MilestoneId} (hid : ∀ w ∈ ws, id ∉ w.milestones) :
    r'.milestones.get? id = r.milestones.get? id :=
  foldlM_invariant_of_mem (fun x => x.milestones.get? id = r.milestones.get? id)
    (fun w hw _ _ hx hx' => (get?_milestones_of_apply hx' (hid w hw)).trans hx) rfl h

/-- Writes leave a dependency alone unless one of them deletes it. -/
theorem get?_dependencies_of_applyAll {ws : List Write} (h : r.applyAll ws = .ok r')
    {e : Dependency} (he : r.dependencies.get? e.id = some e)
    (hws : .deleteDependency e.id ∉ ws) : r'.dependencies.get? e.id = some e := by
  refine foldlM_invariant_of_mem (fun x => x.dependencies.get? e.id = some e)
    (fun w hw _ _ hx hx' => get?_dependencies_of_apply hx' hx ?_) he h
  exact fun hdelete => hws (hdelete ▸ hw)

end ContractRecords

/-! ## Changes -/

namespace Mutation

/-- The milestones that a change creates, edits, deletes, or gives a status or progress.  The ends
of a dependency are not among them. -/
def subjects : Mutation → List MilestoneId
  | setStatus ids _ => ids
  | setProgress updates => updates.map ProgressUpdate.milestoneId
  | createMilestone m => [m.id]
  | updateMilestone id _ | deleteMilestone id => [id]
  | addDependency _ | removeDependency _ => []

/-- The change takes a dependency away: it removes it, or deletes a milestone at one of its
ends. -/
def Drops (e : Dependency) : Mutation → Prop
  | removeDependency id => id = e.id
  | deleteMilestone id => e.touches id = true
  | _ => False

instance (e : Dependency) : DecidablePred (Drops e)
  | removeDependency id => inferInstanceAs (Decidable (id = e.id))
  | deleteMilestone id => inferInstanceAs (Decidable (e.touches id = true))
  | setStatus .. | setProgress .. | createMilestone .. | updateMilestone .. | addDependency .. =>
    inferInstanceAs (Decidable False)

/-- The parts of a change are about no other milestones. -/
theorem mem_subjects_of_parts {x y : Mutation} (hy : y ∈ x.parts) {id : MilestoneId}
    (hid : id ∈ y.subjects) : id ∈ x.subjects := by
  cases x with
  | setStatus ids status =>
    obtain ⟨i, hi, rfl⟩ := List.mem_map.1 hy
    cases List.mem_singleton.1 hid
    exact hi
  | setProgress updates =>
    obtain ⟨u, hu, rfl⟩ := List.mem_map.1 hy
    cases List.mem_singleton.1 hid
    exact List.mem_map_of_mem hu
  | _ =>
    cases List.mem_singleton.1 hy
    exact hid

/-- The parts of a change take no other dependencies away. -/
theorem drops_of_parts {x y : Mutation} (hy : y ∈ x.parts) {e : Dependency} (he : y.Drops e) :
    x.Drops e := by
  cases x with
  | setStatus ids status =>
    obtain ⟨_, -, rfl⟩ := List.mem_map.1 hy
    exact he
  | setProgress updates =>
    obtain ⟨_, -, rfl⟩ := List.mem_map.1 hy
    exact he
  | _ =>
    cases List.mem_singleton.1 hy
    exact he

end Mutation

/-! ## Steps -/

namespace Draft

variable {now : Instant} {d d' : Draft} {ws : List Write}

/-- The writes of a step are about the milestones that its change is about. -/
theorem Step.mem_subjects {x : Mutation} (h : Step now d x ws d') {w : Write} (hw : w ∈ ws)
    {id : MilestoneId} (hid : id ∈ w.milestones) : id ∈ x.subjects := by
  cases h with
  | keep => cases hw
  | move _ _ hmove =>
    cases List.mem_singleton.1 hw
    rw [← (Milestone.sameButStanding_of_moveTo hmove).id_eq]
    exact hid
  | record _ hrecord =>
    have hsame := (Milestone.sameButStanding_of_recordProgress hrecord).id_eq
    rcases List.mem_cons.1 hw with rfl | hw
    · rw [Write.milestones, hsame] at hid
      exact hid
    · cases List.mem_singleton.1 hw
      exact hid
  | create =>
    cases List.mem_singleton.1 hw
    exact hid
  | edit =>
    cases List.mem_singleton.1 hw
    exact hid
  | delete =>
    rcases List.mem_append.1 hw with hw | hw
    · obtain ⟨_, -, rfl⟩ := List.mem_map.1 hw
      cases hid
    · cases List.mem_singleton.1 hw
      exact hid
  | join =>
    cases List.mem_singleton.1 hw
    exact hid
  | part =>
    cases List.mem_singleton.1 hw
    exact hid

/-- A dependency of the draft is still there after a step that does not take it away, and the
writes of the step do not delete it. -/
theorem Step.keeps_dependency {x : Mutation} (h : Step now d x ws d') {e : Dependency}
    (he : d.dependencies.get? e.id = some e) (hx : ¬x.Drops e) :
    d'.dependencies.get? e.id = some e ∧ .deleteDependency e.id ∉ ws := by
  cases h with
  | @delete m _ =>
    have htouches : (!e.touches m.id) = true := by simpa [Mutation.Drops] using hx
    refine ⟨?_, fun hdelete => ?_⟩
    · rw [Table.get?_filter, he, Option.filter_some, if_pos htouches]
    · have hincident : e.id ∈ d.incident m.id := by simpa using hdelete
      obtain ⟨y, hy, hye⟩ := List.mem_map.1 hincident
      obtain ⟨hmem, hy⟩ := List.mem_filter.1 hy
      -- Only the dependency itself stands under its identifier.
      have hget : d.dependencies.get? y.id = some y := Table.mem_toList_iff_get?.1 hmem
      rw [hye, he] at hget
      cases hget
      exact hx hy
  | join hadmits =>
    refine ⟨?_, by simp⟩
    rw [Table.get?_insert, if_neg]
    · exact he
    · intro hid
      have hcontains : d.dependencies.contains e.id = true := Table.contains_iff_get?.2 ⟨e, he⟩
      rw [← hid] at hcontains
      cases hadmits.new_id.symm.trans hcontains
  | @part id _ =>
    have hne : id ≠ e.id := hx
    refine ⟨?_, fun hdelete => ?_⟩
    · rw [Table.get?_erase, if_neg hne]
      exact he
    · cases List.mem_singleton.1 hdelete
      exact hx rfl
  | _ => exact ⟨he, by simp⟩

/-- The writes of steps in a row are about the milestones that some change is about. -/
theorem Steps.exists_mem_subjects {xs : List Mutation} (h : Steps now d xs ws d') {w : Write}
    (hw : w ∈ ws) {id : MilestoneId} (hid : id ∈ w.milestones) : ∃ x ∈ xs, id ∈ x.subjects := by
  induction h with
  | nil => cases hw
  | cons hstep _ ih =>
    rcases List.mem_append.1 hw with hw | hw
    · exact ⟨_, List.mem_cons_self, hstep.mem_subjects hw hid⟩
    · obtain ⟨x, hx, hid⟩ := ih hw
      exact ⟨x, List.mem_cons_of_mem _ hx, hid⟩

/-- The writes of steps in a row delete no dependency that no change takes away. -/
theorem Steps.deleteDependency_notMem {xs : List Mutation} (h : Steps now d xs ws d')
    {e : Dependency} (he : d.dependencies.get? e.id = some e) (hxs : ∀ x ∈ xs, ¬x.Drops e) :
    .deleteDependency e.id ∉ ws := by
  induction h with
  | nil => exact List.not_mem_nil
  | cons hstep _ ih =>
    obtain ⟨he', hfirst⟩ := hstep.keeps_dependency he (hxs _ List.mem_cons_self)
    have hrest := ih he' fun x hx => hxs x (List.mem_cons_of_mem _ hx)
    exact fun hdelete => (List.mem_append.1 hdelete).elim hfirst hrest

end Draft

end Milestones
