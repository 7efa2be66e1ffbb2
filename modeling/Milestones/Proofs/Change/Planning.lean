import Milestones.Change.Draft
import Milestones.Proofs.Outcome
import Milestones.Proofs.Table

/-!
# Planning, step by step

A batch is a list of changes, and a change may be about several milestones at once.  Taken apart,
it is a list of changes about one milestone or one dependency each.  A step is such a change that
a draft accepts: what was checked, what becomes of the draft, and the writes it takes.

Whatever is to be shown of planning is shown of the eight kinds of step, and then holds of every
accepted batch.

## Main definitions

* `Mutation.parts`: a change taken apart.
* `Draft.Step`, `Draft.Steps`: one step, and steps in a row.

## Main statements

* `Milestone.moveTo_eq_ok`, `Milestone.recordProgress_eq_ok`: what a change of status and a
  reading do to a milestone.
* `Draft.steps_of_plan`: an accepted batch is a row of steps through its parts.
-/

namespace Milestones

open Outcome

/-! ## Changes to one milestone -/

namespace Milestone

/-- A move changes the status and the actual dates and nothing else. -/
theorem moveTo_eq_ok {m m' : Milestone} {target : Status} {now : Instant}
    (h : m.moveTo target now = .ok m') :
    ∃ start finish duration, m' =
      { m with
        status := target, actualStart := start, actualEnd := finish
        actualDuration := duration } := by
  obtain ⟨_, -, h⟩ := bind_eq_ok.1 h
  cases target <;> cases h <;> exact ⟨_, _, _, rfl⟩

/-- A reading is in range and about an open milestone, and makes up to two moves before it is
entered. -/
theorem recordProgress_eq_ok {m m' : Milestone} {value : Float} {now : Instant}
    (h : m.recordProgress value now = .ok m') :
    (value.isFinite && 0 ≤ value && value ≤ 100) = true ∧ m.status.isTerminal = false ∧
      ∃ m₁ m₂, (if m.startsWith value then m.moveTo .inProgress now else pure m) = .ok m₁ ∧
        (if 100 ≤ value then m₁.moveTo .completed now else pure m₁) = .ok m₂ ∧
        m' = { m₂ with percentageComplete := value } := by
  simp only [recordProgress] at h
  split at h
  · cases h
  rename_i hvalue
  split at h
  · cases h
  rename_i hopen
  refine ⟨by simpa using hvalue, by simpa using hopen, ?_⟩
  split at h <;> rename_i hstart <;> obtain ⟨m₁, h₁, h⟩ := bind_eq_ok.1 h <;> split at h <;>
    rename_i hfull <;> obtain ⟨m₂, h₂, h⟩ := bind_eq_ok.1 h <;> cases h <;>
    exact ⟨m₁, m₂, by simpa [hstart] using h₁, by simpa [hfull] using h₂, rfl⟩

theorem status_of_moveTo {m m' : Milestone} {target : Status} {now : Instant}
    (h : m.moveTo target now = .ok m') : m'.status = target := by
  obtain ⟨_, _, _, rfl⟩ := moveTo_eq_ok h
  rfl

theorem percentageComplete_of_moveTo {m m' : Milestone} {target : Status} {now : Instant}
    (h : m.moveTo target now = .ok m') : m'.percentageComplete = m.percentageComplete := by
  obtain ⟨_, _, _, rfl⟩ := moveTo_eq_ok h
  rfl

/-- What every move keeps is there when a reading is entered. -/
theorem exists_of_recordProgress {P : Milestone → Prop} {m m' : Milestone} {value : Float}
    {now : Instant}
    (hP : ∀ {m m' : Milestone} {target : Status}, m.moveTo target now = .ok m' → P m → P m')
    (h : m.recordProgress value now = .ok m') (hm : P m) :
    ∃ m₁, P m₁ ∧ (100 ≤ value → m₁.status = .completed) ∧
      m' = { m₁ with percentageComplete := value } := by
  have hmove : ∀ {c : Prop} [Decidable c] {m m' : Milestone} {target : Status},
      (if c then m.moveTo target now else pure m) = .ok m' → P m → P m' := by
    intro c _ m m' target h hm
    split at h
    · exact hP h hm
    · cases h
      exact hm
  obtain ⟨-, -, m₁, m₂, h₁, h₂, rfl⟩ := recordProgress_eq_ok h
  refine ⟨m₂, hmove h₂ (hmove h₁ hm), fun hfull => ?_, rfl⟩
  rw [if_pos hfull] at h₂
  exact status_of_moveTo h₂

theorem percentageComplete_of_recordProgress {m m' : Milestone} {value : Float} {now : Instant}
    (h : m.recordProgress value now = .ok m') : m'.percentageComplete = value := by
  obtain ⟨-, -, _, _, -, -, rfl⟩ := recordProgress_eq_ok h
  rfl

/-- Only its standing tells one milestone from the other: status, actual dates and progress. -/
structure SameButStanding (m m' : Milestone) : Prop where
  eq : ∃ status start finish duration progress, m' =
    { m with
      status := status, actualStart := start, actualEnd := finish
      actualDuration := duration, percentageComplete := progress }

namespace SameButStanding

variable {m m' m'' : Milestone}

theorem refl (m : Milestone) : m.SameButStanding m := ⟨_, _, _, _, _, rfl⟩

theorem trans (h : m.SameButStanding m') (h' : m'.SameButStanding m'') :
    m.SameButStanding m'' := by
  obtain ⟨_, _, _, _, _, rfl⟩ := h
  obtain ⟨_, _, _, _, _, rfl⟩ := h'
  exact ⟨_, _, _, _, _, rfl⟩

theorem id_eq (h : m.SameButStanding m') : m'.id = m.id := by
  obtain ⟨_, _, _, _, _, rfl⟩ := h
  rfl

theorem contractId_eq (h : m.SameButStanding m') : m'.contractId = m.contractId := by
  obtain ⟨_, _, _, _, _, rfl⟩ := h
  rfl

theorem estimatedDuration_eq (h : m.SameButStanding m') :
    m'.estimatedDuration = m.estimatedDuration := by
  obtain ⟨_, _, _, _, _, rfl⟩ := h
  rfl

theorem criticalityScore_eq (h : m.SameButStanding m') :
    m'.criticalityScore = m.criticalityScore := by
  obtain ⟨_, _, _, _, _, rfl⟩ := h
  rfl

end SameButStanding

theorem sameButStanding_of_moveTo {m m' : Milestone} {target : Status} {now : Instant}
    (h : m.moveTo target now = .ok m') : m.SameButStanding m' := by
  obtain ⟨_, _, _, rfl⟩ := moveTo_eq_ok h
  exact ⟨_, _, _, _, _, rfl⟩

theorem sameButStanding_of_recordProgress {m m' : Milestone} {value : Float} {now : Instant}
    (h : m.recordProgress value now = .ok m') : m.SameButStanding m' := by
  obtain ⟨m₁, hsame, -, rfl⟩ := exists_of_recordProgress (P := m.SameButStanding)
    (fun hmove hm => hm.trans (sameButStanding_of_moveTo hmove)) h (.refl m)
  exact hsame.trans ⟨_, _, _, _, _, rfl⟩

end Milestone

namespace MilestoneEdit

@[simp] theorem id_apply (e : MilestoneEdit) (m : Milestone) : (e.apply m).id = m.id := rfl

@[simp] theorem contractId_apply (e : MilestoneEdit) (m : Milestone) :
    (e.apply m).contractId = m.contractId := rfl

@[simp] theorem estimatedDuration_apply (e : MilestoneEdit) (m : Milestone) :
    (e.apply m).estimatedDuration = e.estimatedDuration.or m.estimatedDuration := rfl

end MilestoneEdit

/-! ## Parts of a batch -/

namespace Mutation

/-- The change taken apart: status and progress one milestone at a time. -/
def parts : Mutation → List Mutation
  | setStatus ids status => ids.map fun id => setStatus [id] status
  | setProgress updates => updates.map fun u => setProgress [u]
  | createMilestone m => [createMilestone m]
  | updateMilestone id edit => [updateMilestone id edit]
  | deleteMilestone id => [deleteMilestone id]
  | addDependency e => [addDependency e]
  | removeDependency id => [removeDependency id]

/-- The readings that the change enters in the journal. -/
def readings (now : Instant) : Mutation → List ProgressReading
  | setProgress updates => updates.map fun u => ⟨u.milestoneId, u.percentageComplete, now⟩
  | _ => []

theorem flatMap_readings_parts (now : Instant) (x : Mutation) :
    x.parts.flatMap (readings now) = x.readings now := by
  cases x with
  | setStatus ids status => simp [parts, readings, List.flatMap_map]
  | setProgress updates =>
    rw [parts, List.flatMap_map]
    exact List.flatMap_pure_eq_map _ _
  | _ => rfl

/-- Nothing but status and progress is taken apart. -/
theorem eq_of_mem_parts {x y : Mutation} (hy : y ∈ x.parts)
    (hstatus : ∀ ids status, y ≠ setStatus ids status)
    (hprogress : ∀ updates, y ≠ setProgress updates) : y = x := by
  cases x with
  | setStatus ids status =>
    obtain ⟨id, -, rfl⟩ := List.mem_map.1 hy
    exact absurd rfl (hstatus _ _)
  | setProgress updates =>
    obtain ⟨u, -, rfl⟩ := List.mem_map.1 hy
    exact absurd rfl (hprogress _)
  | _ => exact List.mem_singleton.1 hy

theorem mem_of_mem_flatMap_parts {xs : List Mutation} {y : Mutation} (hy : y ∈ xs.flatMap parts)
    (hstatus : ∀ ids status, y ≠ setStatus ids status)
    (hprogress : ∀ updates, y ≠ setProgress updates) : y ∈ xs := by
  obtain ⟨x, hx, hy⟩ := List.mem_flatMap.1 hy
  rwa [eq_of_mem_parts hy hstatus hprogress]

end Mutation

namespace Batch

/-- The changes of a batch taken apart, in order. -/
def parts (b : Batch) : List Mutation := b.mutations.flatMap Mutation.parts

/-- The readings that a batch enters in the journal, in order. -/
def readings (b : Batch) (now : Instant) : List ProgressReading :=
  b.mutations.flatMap (Mutation.readings now)

theorem flatMap_readings_parts (b : Batch) (now : Instant) :
    b.parts.flatMap (Mutation.readings now) = b.readings now := by
  rw [parts, readings, List.flatMap_assoc]
  exact List.flatMap_congr fun x _ => x.flatMap_readings_parts now

end Batch

namespace Draft

/-! ## What the checks say -/

/-- A milestone is found if it belongs to the contract and is there. -/
theorem find_eq_ok {d : Draft} {id : MilestoneId} {m : Milestone} :
    d.find id = .ok m ↔ d.elsewhere.lookup id = none ∧ d.milestones.get? id = some m := by
  rw [find]
  split
  · rename_i actual hactual
    simp [hactual]
  · rename_i hnone
    split
    · rename_i hget
      simp [hnone, hget]
    · rename_i hget
      simp [hnone, hget]

theorem id_of_find {d : Draft} {id : MilestoneId} {m : Milestone} (h : d.find id = .ok m) :
    m.id = id := Table.recordId_of_get? (find_eq_ok.1 h).2

theorem get?_of_find {d : Draft} {id : MilestoneId} {m : Milestone} (h : d.find id = .ok m) :
    d.milestones.get? m.id = some m := by
  rw [id_of_find h]
  exact (find_eq_ok.1 h).2

/-- A duration passes unless it is negative. -/
theorem checkDuration_eq_ok {id : MilestoneId} {duration : Option Duration} {u : Unit}
    (h : checkDuration id duration = .ok u) : ∀ span ∈ duration, .zero ≤ span := by
  intro span hspan
  cases hspan
  rw [checkDuration] at h
  split at h
  · cases h
  · rename_i hnot
    exact Int.not_lt.1 hnot

/-- What is checked of a new dependency. -/
structure Admits (d : Draft) (e : Dependency) : Prop where
  find_dependent : ∃ m, d.find e.milestoneId = .ok m
  find_prerequisite : ∃ m, d.find e.dependsOnId = .ok m
  ne : e.milestoneId ≠ e.dependsOnId
  new_id : d.dependencies.contains e.id = false
  new : ∀ x ∈ d.dependencies.toList, x.milestoneId = e.milestoneId →
    x.dependsOnId = e.dependsOnId → x.kind ≠ e.kind
  ordered : ∃ g o, Graph.ofRecords d.contractId d.milestones.toList
    (d.dependencies.toList ++ [e]) = .ok g ∧ g.workOrder = .ok o

theorem admits_of_checkDependency {d : Draft} {e : Dependency} {u : Unit}
    (h : d.checkDependency e = .ok u) : d.Admits e := by
  simp only [checkDependency] at h
  obtain ⟨m, hm, h⟩ := bind_eq_ok.1 h
  obtain ⟨n, hn, h⟩ := bind_eq_ok.1 h
  split at h
  · cases h
  rename_i hne
  split at h
  · cases h
  rename_i hid
  split at h
  · cases h
  rename_i hnew
  obtain ⟨g, hg, h⟩ := bind_eq_ok.1 h
  obtain ⟨o, ho, -⟩ := bind_eq_ok.1 h
  refine ⟨⟨m, hm⟩, ⟨n, hn⟩, hne, by simpa using hid, ?_, g, o, mapError_eq_ok.1 hg,
    mapError_eq_ok.1 ho⟩
  simpa using hnew

/-! ## Steps -/

/-- The dependencies at a milestone. -/
def incident (d : Draft) (id : MilestoneId) : List DependencyId :=
  (d.dependencies.toList.filter (·.touches id)).map Dependency.id

/-- One change about one milestone or one dependency, with what was checked and the writes it
takes. -/
inductive Step (now : Instant) : Draft → Mutation → List Write → Draft → Prop
  /-- A milestone that has the status already is left alone. -/
  | keep {d : Draft} {m : Milestone} (hfind : d.find m.id = .ok m) :
      Step now d (.setStatus [m.id] m.status) [] d
  | move {d : Draft} {m m' : Milestone} {target : Status} (hfind : d.find m.id = .ok m)
      (hne : m.status ≠ target) (hmove : m.moveTo target now = .ok m') :
      Step now d (.setStatus [m.id] target) [.replaceMilestone m'] (d.put m')
  | record {d : Draft} {m m' : Milestone} {value : Float} (hfind : d.find m.id = .ok m)
      (hrecord : m.recordProgress value now = .ok m') :
      Step now d (.setProgress [⟨m.id, value⟩])
        [.replaceMilestone m', .setProgress ⟨m.id, value⟩ now] (d.put m')
  | create {d : Draft} {m : Milestone} (hcontract : m.contractId = d.contractId)
      (hnew : d.milestones.contains m.id = false) (helsewhere : d.elsewhere.lookup m.id = none)
      (hduration : ∀ span ∈ m.estimatedDuration, .zero ≤ span) :
      Step now d (.createMilestone m) [.insertMilestone { m with criticalPath := false }]
        (d.put { m with criticalPath := false })
  | edit {d : Draft} {m : Milestone} {edit : MilestoneEdit} (hfind : d.find m.id = .ok m)
      (hduration : ∀ span ∈ edit.estimatedDuration, .zero ≤ span) :
      Step now d (.updateMilestone m.id edit) [.replaceMilestone (edit.apply m)]
        (d.put (edit.apply m))
  | delete {d : Draft} {m : Milestone} (hfind : d.find m.id = .ok m) :
      Step now d (.deleteMilestone m.id)
        ((d.incident m.id).map .deleteDependency ++ [.deleteMilestone m.id])
        { d with
          milestones := d.milestones.erase m.id
          dependencies := d.dependencies.filter fun e => !e.touches m.id }
  | join {d : Draft} {e : Dependency} (hadmits : d.Admits e) :
      Step now d (.addDependency e) [.insertDependency e]
        { d with dependencies := d.dependencies.insert e }
  | part {d : Draft} {id : DependencyId} (hcontains : d.dependencies.contains id = true) :
      Step now d (.removeDependency id) [.deleteDependency id]
        { d with dependencies := d.dependencies.erase id }

/-- Steps in a row. -/
inductive Steps (now : Instant) : Draft → List Mutation → List Write → Draft → Prop
  | nil (d : Draft) : Steps now d [] [] d
  | cons {d d' d'' : Draft} {x : Mutation} {xs : List Mutation} {ws ws' : List Write} :
      Step now d x ws d' → Steps now d' xs ws' d'' → Steps now d (x :: xs) (ws ++ ws') d''

variable {now : Instant}

theorem Step.single {d d' : Draft} {x : Mutation} {ws : List Write} (h : Step now d x ws d') :
    Steps now d [x] ws d' := by
  have := Steps.cons h (.nil d')
  rwa [List.append_nil] at this

theorem Steps.append {d d' d'' : Draft} {xs ys : List Mutation} {ws ws' : List Write}
    (h : Steps now d xs ws d') (h' : Steps now d' ys ws' d'') :
    Steps now d (xs ++ ys) (ws ++ ws') d'' := by
  induction h with
  | nil d => exact h'
  | cons hstep _ ih =>
    rw [List.append_assoc]
    exact .cons hstep (ih h')

/-- What every step keeps, steps in a row keep. -/
theorem Steps.invariant {P : Draft → Prop}
    (hP : ∀ {d x ws d'}, Step now d x ws d' → P d → P d') {d d' : Draft} {xs : List Mutation}
    {ws : List Write} (h : Steps now d xs ws d') (hd : P d) : P d' := by
  induction h with
  | nil d => exact hd
  | cons hstep _ ih => exact ih (hP hstep hd)

/-! ## Accepted changes are steps -/

theorem step_of_setStatus {status : Status} {d d' : Draft} {id : MilestoneId} {e : Effect}
    (h : setStatus status now d id = .ok (d', e)) :
    Step now d (.setStatus [id] status) e.writes d' := by
  rw [setStatus, bind_eq_ok] at h
  obtain ⟨m, hfind, h⟩ := h
  obtain rfl := id_of_find hfind
  split at h
  · rename_i hstatus
    cases h
    rw [← hstatus]
    exact .keep hfind
  · rename_i hstatus
    obtain ⟨m', hmove, h⟩ := bind_eq_ok.1 h
    cases h
    exact .move hfind hstatus hmove

theorem step_of_setProgress {d d' : Draft} {u : ProgressUpdate} {e : Effect}
    (h : setProgress now d u = .ok (d', e)) : Step now d (.setProgress [u]) e.writes d' := by
  obtain ⟨m, hfind, h⟩ := bind_eq_ok.1 h
  obtain ⟨m', hrecord, h⟩ := bind_eq_ok.1 h
  cases u
  obtain rfl := id_of_find hfind
  cases h
  exact .record hfind hrecord

/-- If each of several changes is a step, so are all in a row. -/
theorem steps_of_each {α : Type} {change : Draft → α → Except Rejection (Draft × Effect)}
    {label : α → Mutation}
    (hstep : ∀ d a d' e, change d a = .ok (d', e) → Step now d (label a) e.writes d')
    {as : List α} {d d' : Draft} {e : Effect} (h : each change d as = .ok (d', e)) :
    Steps now d (as.map label) e.writes d' := by
  induction as generalizing d e with
  | nil =>
    cases h
    exact .nil _
  | cons a rest ih =>
    obtain ⟨⟨d₁, e₁⟩, h₁, h⟩ := bind_eq_ok.1 h
    obtain ⟨⟨d₂, e₂⟩, h₂, h⟩ := bind_eq_ok.1 h
    cases h
    exact .cons (hstep _ _ _ _ h₁) (ih h₂)

/-- An accepted change is a row of steps through its parts. -/
theorem steps_of_mutate {d d' : Draft} {x : Mutation} {e : Effect}
    (h : d.mutate now x = .ok (d', e)) : Steps now d x.parts e.writes d' := by
  cases x with
  | setStatus ids status =>
    rw [mutate] at h
    exact steps_of_each (fun _ _ _ _ h => step_of_setStatus h) h
  | setProgress updates =>
    rw [mutate] at h
    exact steps_of_each (fun _ _ _ _ h => step_of_setProgress h) h
  | createMilestone m =>
    simp only [mutate] at h
    split at h
    · cases h
    rename_i hcontract
    split at h
    · cases h
    rename_i hnew
    obtain ⟨_, hduration, h⟩ := bind_eq_ok.1 h
    cases h
    simp only [Bool.or_eq_true, not_or, Bool.not_eq_true, Option.isSome_eq_false_iff,
      Option.isNone_iff_eq_none] at hnew
    exact (Step.create (Decidable.not_not.1 hcontract) hnew.1 hnew.2
      (checkDuration_eq_ok hduration)).single
  | updateMilestone id edit =>
    obtain ⟨_, hduration, h⟩ := bind_eq_ok.1 h
    obtain ⟨m, hfind, h⟩ := bind_eq_ok.1 h
    cases h
    obtain rfl := id_of_find hfind
    exact (Step.edit hfind (checkDuration_eq_ok hduration)).single
  | deleteMilestone id =>
    obtain ⟨m, hfind, h⟩ := bind_eq_ok.1 h
    cases h
    obtain rfl := id_of_find hfind
    exact (Step.delete hfind).single
  | addDependency x =>
    obtain ⟨_, hcheck, h⟩ := bind_eq_ok.1 h
    cases h
    exact (Step.join (admits_of_checkDependency hcheck)).single
  | removeDependency id =>
    simp only [mutate] at h
    split at h
    · cases h
    rename_i hcontains
    cases h
    exact (Step.part (by simpa using hcontains)).single

theorem steps_of_planFrom {index : Nat} {xs : List Mutation} {d d' : Draft} {e : Effect}
    (h : planFrom now index d xs = .ok (d', e)) :
    Steps now d (xs.flatMap Mutation.parts) e.writes d' := by
  induction xs generalizing index d e with
  | nil =>
    cases h
    exact .nil _
  | cons x rest ih =>
    obtain ⟨⟨d₁, e₁⟩, h₁, h⟩ := bind_eq_ok.1 h
    obtain ⟨⟨d₂, e₂⟩, h₂, h⟩ := bind_eq_ok.1 h
    cases h
    rw [List.flatMap_cons]
    exact (steps_of_mutate (mapError_eq_ok.1 h₁)).append (ih h₂)

/-- An accepted batch is a row of steps through its parts. -/
theorem steps_of_plan {b : Batch} {d d' : Draft} {e : Effect}
    (h : d.plan b now = .ok (d', e)) : Steps now d b.parts e.writes d' :=
  steps_of_planFrom h

/-! ## What no step touches -/

theorem Step.contractId_eq {d d' : Draft} {x : Mutation} {ws : List Write}
    (h : Step now d x ws d') : d'.contractId = d.contractId := by
  cases h <;> rfl

theorem Step.elsewhere_eq {d d' : Draft} {x : Mutation} {ws : List Write}
    (h : Step now d x ws d') : d'.elsewhere = d.elsewhere := by
  cases h <;> rfl

end Draft

end Milestones
