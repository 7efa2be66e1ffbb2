import Milestones.Proofs.Planner.Course

/-!
# The life of a milestone

Only moves and readings write the status, the progress and the actual dates of a milestone.  A
closed milestone takes neither, so it stays as it stands until it is deleted.  A move stamps the
dates of the status that it leads to and never replaces a start, so the dates that a status calls
for are there on every way to it, whatever the clock says.

Edits and critical marks write the record as a whole, but with the same standing.

## Main definitions

* `Milestone.SameStanding`: the same status, progress and actual dates.
* `Milestone.Stamped`: the actual dates and the progress go with the status.

## Main statements

* `Milestone.moveTo_cases`: everything that a move does.
* `Planner.Truthful.sameStanding_afterAll`: a closed milestone after a run.
* `Planner.stamped_after_batch`: the stamps after a batch.
-/

namespace Milestones

open Outcome

/-- A terminal status leads nowhere. -/
theorem Status.next_eq_nil {s : Status} (h : s.isTerminal = true) : s.next = [] := by
  cases s <;> first | rfl | cases h

namespace Milestone

variable {m m' m'' : Milestone} {now : Instant}

/-- A move keeps the status or goes one step, and stamps the dates of the status that it leads
to. -/
theorem moveTo_cases {target : Status} (h : m.moveTo target now = .ok m') :
    (m.status = target ∨ target ∈ m.status.next) ∧
      (target = .inProgress ∧
          m' = { m with status := .inProgress, actualStart := some (m.actualStart.getD now) } ∨
        target = .completed ∧
          m' = { m with
            status := .completed
            actualStart := some (m.actualStart.getD now)
            actualEnd := some now
            actualDuration := some (now.since (m.actualStart.getD now)) } ∨
        target ≠ .inProgress ∧ target ≠ .completed ∧ m' = { m with status := target }) := by
  obtain ⟨_, hmove, h⟩ := bind_eq_ok.1 h
  refine ⟨?_, ?_⟩
  · rw [mapError_eq_ok, Status.move] at hmove
    split at hmove
    · assumption
    · cases hmove
  · cases target with
    | inProgress => cases h; exact .inl ⟨rfl, rfl⟩
    | completed => cases h; exact .inr (.inl ⟨rfl, rfl⟩)
    | pending | blocked | cancelled =>
      cases h
      exact .inr (.inr ⟨nofun, nofun, rfl⟩)

/-! ## Standing -/

/-- Two milestones have the same status, progress and actual dates. -/
structure SameStanding (m m' : Milestone) : Prop where
  status_eq : m'.status = m.status
  percentageComplete_eq : m'.percentageComplete = m.percentageComplete
  actualStart_eq : m'.actualStart = m.actualStart
  actualEnd_eq : m'.actualEnd = m.actualEnd
  actualDuration_eq : m'.actualDuration = m.actualDuration

namespace SameStanding

theorem refl (m : Milestone) : m.SameStanding m := ⟨rfl, rfl, rfl, rfl, rfl⟩

theorem trans (h : m.SameStanding m') (h' : m'.SameStanding m'') : m.SameStanding m'' where
  status_eq := h'.status_eq.trans h.status_eq
  percentageComplete_eq := h'.percentageComplete_eq.trans h.percentageComplete_eq
  actualStart_eq := h'.actualStart_eq.trans h.actualStart_eq
  actualEnd_eq := h'.actualEnd_eq.trans h.actualEnd_eq
  actualDuration_eq := h'.actualDuration_eq.trans h.actualDuration_eq

/-- Edits are about other fields. -/
theorem edit (e : MilestoneEdit) (m : Milestone) : m.SameStanding (e.apply m) :=
  ⟨rfl, rfl, rfl, rfl, rfl⟩

theorem mark (m : Milestone) (critical : Bool) :
    m.SameStanding { m with criticalPath := critical } :=
  ⟨rfl, rfl, rfl, rfl, rfl⟩

end SameStanding

/-! ## Stamps -/

/-- The actual dates that the status calls for are there. -/
structure Dated (m : Milestone) : Prop where
  started : m.status = .inProgress → m.actualStart.isSome = true
  finished : m.status = .completed → ∃ start ∈ m.actualStart, ∃ finish ∈ m.actualEnd,
    m.actualDuration = some (finish.since start)

/-- The actual dates that the status calls for are there, and full progress is completion. -/
structure Stamped (m : Milestone) : Prop extends m.Dated where
  completed : 100 ≤ m.percentageComplete → m.status = .completed

instance (m : Milestone) : Decidable m.Stamped :=
  decidable_of_iff
    ((m.status = .inProgress → m.actualStart.isSome = true) ∧
      (m.status = .completed → ∃ start ∈ m.actualStart, ∃ finish ∈ m.actualEnd,
        m.actualDuration = some (finish.since start)) ∧
      (100 ≤ m.percentageComplete → m.status = .completed))
    ⟨fun ⟨started, finished, completed⟩ => ⟨⟨started, finished⟩, completed⟩,
      fun h => ⟨h.started, h.finished, h.completed⟩⟩

theorem Stamped.of_sameStanding (hm : m.Stamped) (h : m.SameStanding m') : m'.Stamped where
  started := by
    rw [h.status_eq, h.actualStart_eq]
    exact hm.started
  finished := by
    rw [h.status_eq, h.actualStart_eq, h.actualEnd_eq, h.actualDuration_eq]
    exact hm.finished
  completed := by
    rw [h.status_eq, h.percentageComplete_eq]
    exact hm.completed

/-- Whatever the dates were, after a move they are those of the new status. -/
theorem dated_of_moveTo {target : Status} (h : m.moveTo target now = .ok m') : m'.Dated := by
  obtain ⟨-, ⟨rfl, rfl⟩ | ⟨rfl, rfl⟩ | ⟨hstart, hfinish, rfl⟩⟩ := moveTo_cases h
  · exact ⟨fun _ => rfl, nofun⟩
  · exact ⟨nofun, fun _ => ⟨_, rfl, _, rfl, rfl⟩⟩
  · exact ⟨fun h => absurd h hstart, fun h => absurd h hfinish⟩

theorem actualStart_of_moveTo {target : Status} (h : m.moveTo target now = .ok m')
    {start : Instant} (hstart : m.actualStart = some start) : m'.actualStart = some start := by
  obtain ⟨-, ⟨-, rfl⟩ | ⟨-, rfl⟩ | ⟨-, -, rfl⟩⟩ := moveTo_cases h
  · simp only [hstart, Option.getD_some]
  · simp only [hstart, Option.getD_some]
  · exact hstart

/-- Full progress stays completion, because completion leads nowhere. -/
theorem Stamped.moveTo (hm : m.Stamped) {target : Status} (h : m.moveTo target now = .ok m') :
    m'.Stamped where
  toDated := dated_of_moveTo h
  completed hfull := by
    have hdone := hm.completed (percentageComplete_of_moveTo h ▸ hfull)
    rcases (moveTo_cases h).1 with hkept | hnext
    · rw [status_of_moveTo h, ← hkept, hdone]
    · rw [Status.next_eq_nil (by rw [hdone]; rfl)] at hnext
      cases hnext

/-- A reading finds the dates there after the moves that it makes, and completes the milestone if it
is full. -/
theorem Stamped.recordProgress (hm : m.Stamped) {value : Float}
    (h : m.recordProgress value now = .ok m') : m'.Stamped := by
  obtain ⟨m₁, hdated, hfull, rfl⟩ :=
    exists_of_recordProgress (fun hmove _ => dated_of_moveTo hmove) h hm.toDated
  exact ⟨⟨hdated.started, hdated.finished⟩, hfull⟩

theorem actualStart_of_recordProgress {value : Float} (h : m.recordProgress value now = .ok m')
    {start : Instant} (hstart : m.actualStart = some start) : m'.actualStart = some start := by
  obtain ⟨m₁, hstart₁, -, rfl⟩ := exists_of_recordProgress
    (P := fun m => m.actualStart = some start) (fun h hm => actualStart_of_moveTo h hm) h hstart
  exact hstart₁

end Milestone

/-! ## What a change keeps -/

namespace Dossier.Change

variable {now : Instant} {id : MilestoneId} {x : Mutation} {d d' : Dossier}

/-- A closed milestone takes edits alone, and no reading. -/
theorem of_closed {m : Milestone} {rs : List ProgressReading}
    (h : Change now id x ⟨some m, rs⟩ d') (hclosed : m.status.isTerminal = true)
    (hkept : x ≠ .deleteMilestone id) : ∃ m', d' = ⟨some m', rs⟩ ∧ m.SameStanding m' := by
  cases h with
  | other => exact ⟨m, rfl, .refl m⟩
  | keep => exact ⟨m, rfl, .refl m⟩
  | move hne hmove =>
    rcases (Milestone.moveTo_cases hmove).1 with hsame | hnext
    · exact absurd hsame hne
    · rw [Status.next_eq_nil hclosed] at hnext
      cases hnext
  | record hrecord =>
    have hopen := (Milestone.recordProgress_eq_ok hrecord).2.1
    cases hopen.symm.trans hclosed
  | edit => exact ⟨_, rfl, .edit _ m⟩
  | delete => exact absurd rfl hkept

theorem stamped (h : Change now id x d d') (hcreated : ∀ m, x = .createMilestone m → m.Stamped)
    (hd : ∀ m ∈ d.milestone, m.Stamped) : ∀ m ∈ d'.milestone, m.Stamped := by
  cases h with
  | other => exact hd
  | keep => exact hd
  | move _ hmove =>
    rintro _ ⟨⟩
    exact (hd _ rfl).moveTo hmove
  | record hrecord =>
    rintro _ ⟨⟩
    exact (hd _ rfl).recordProgress hrecord
  | @create m =>
    rintro _ ⟨⟩
    exact (hcreated m rfl).of_sameStanding (.mark m false)
  | @edit m e =>
    rintro _ ⟨⟩
    exact (hd m rfl).of_sameStanding (.edit e m)
  | delete => rintro _ ⟨⟩

theorem actualStart (h : Change now id x d d') (hkept : x ≠ .deleteMilestone id)
    {start : Instant} (hd : d.milestone.bind Milestone.actualStart = some start) :
    d'.milestone.bind Milestone.actualStart = some start := by
  cases h with
  | other => exact hd
  | keep => exact hd
  | move _ hmove => exact Milestone.actualStart_of_moveTo hmove hd
  | record hrecord => exact Milestone.actualStart_of_recordProgress hrecord hd
  | create => cases hd
  | edit => exact hd
  | delete => exact absurd rfl hkept

end Dossier.Change

/-! ## What a course keeps -/

namespace ContractRecords.Course

variable {r r' : ContractRecords} {xs : List Mutation}

/-- A closed milestone stays as it stands until it is deleted. -/
theorem dossier_of_closed (h : Course r xs r') {id : MilestoneId} {m : Milestone}
    (hm : r.milestones.get? id = some m) (hclosed : m.status.isTerminal = true)
    (hkept : .deleteMilestone id ∉ xs) :
    ∃ m', r'.dossier id = ⟨some m', (r.dossier id).readings⟩ ∧ m.SameStanding m' := by
  refine h.dossier_invariant_of_mem id
    (P := fun d => ∃ m', d = ⟨some m', (r.dossier id).readings⟩ ∧ m.SameStanding m') ?_ ?_
    ⟨m, by rw [dossier, hm], .refl m⟩
  · rintro now x _ d' hx hchange ⟨m₁, rfl, hsame⟩
    have hclosed₁ : m₁.status.isTerminal = true := by rw [hsame.status_eq, hclosed]
    obtain ⟨m₂, rfl, hsame₂⟩ := hchange.of_closed hclosed₁ (ne_of_mem_of_not_mem hx hkept)
    exact ⟨m₂, rfl, hsame.trans hsame₂⟩
  · rintro m₁ critical rs ⟨m₂, heq, hsame⟩
    cases heq
    exact ⟨_, rfl, hsame.trans (.mark _ _)⟩

theorem stamped (h : Course r xs r') (hcreated : ∀ m, .createMilestone m ∈ xs → m.Stamped)
    (hr : ∀ m ∈ r.milestones.toList, m.Stamped) : ∀ m ∈ r'.milestones.toList, m.Stamped := by
  intro m hm
  refine h.dossier_invariant_of_mem m.id (P := fun d => ∀ m ∈ d.milestone, m.Stamped)
    (fun hx hchange => hchange.stamped fun m hcreate => hcreated m (hcreate ▸ hx)) ?_
    (fun m hm => hr m (Table.mem_of_get? hm)) m (milestone_dossier hm)
  rintro m critical rs hd _ ⟨⟩
  exact (hd m rfl).of_sameStanding (.mark m critical)

/-- A start is never replaced. -/
theorem actualStart (h : Course r xs r') {id : MilestoneId} {m : Milestone}
    (hm : r.milestones.get? id = some m) {start : Instant} (hstart : m.actualStart = some start)
    (hkept : .deleteMilestone id ∉ xs) :
    ∃ m', r'.milestones.get? id = some m' ∧ m'.actualStart = some start := by
  have hend := h.dossier_invariant_of_mem id
    (P := fun d => d.milestone.bind Milestone.actualStart = some start)
    (fun hx hchange => hchange.actualStart (ne_of_mem_of_not_mem hx hkept)) (fun hd => hd)
    (by rw [dossier, hm, Option.bind_some, hstart])
  exact Option.bind_eq_some_iff.1 hend

end ContractRecords.Course

/-! ## Runs and batches -/

namespace Planner

/-- What is remembered is the schedule of the records, and a milestone is completed or cancelled.
After every run in which no accepted batch deletes it from its contract, the milestone is still
stored there with the same status, progress and actual dates, and the journal of the contract has no
other readings of it. -/
theorem Truthful.sameStanding_afterAll {p : Planner} (hp : p.Truthful) {c : ContractId}
    {id : MilestoneId} {m : Milestone} (hm : (p.store.records c).milestones.get? id = some m)
    (hclosed : m.status = .completed ∨ m.status = .cancelled) {os : List Operation}
    (hkept : .deleteMilestone id ∉ p.changes c os) :
    (∃ m', ((p.afterAll os).store.records c).milestones.get? id = some m' ∧ m.SameStanding m') ∧
      ((p.afterAll os).store.records c).history.filter (fun e => e.milestoneId == id) =
        (p.store.records c).history.filter fun e => e.milestoneId == id := by
  have hterminal : m.status.isTerminal = true := by
    rcases hclosed with h | h <;> rw [h] <;> rfl
  have hparts : .deleteMilestone id ∉ (p.changes c os).flatMap Mutation.parts := fun hmem =>
    hkept (Mutation.mem_of_mem_flatMap_parts hmem nofun nofun)
  obtain ⟨m', hm', hsame⟩ := (hp.course_afterAll os c).dossier_of_closed hm hterminal hparts
  exact ⟨⟨m', congrArg Dossier.milestone hm', hsame⟩, congrArg Dossier.readings hm'⟩

/-- A reading, an edit and critical marks for the third milestone of the fork. -/
def closedRun : List Operation :=
  [.batch ⟨1, [.setProgress [⟨3, 50⟩]]⟩ .epoch,
    .batch ⟨1, [.updateMilestone 3 { title := some "done" }]⟩ .epoch, .sync 1]

/-- The batch has completed the milestone before.  The reading is rejected, and the edit and the
marks leave the milestone as it stands. -/
theorem sameStanding_afterAll_closedRun :
    ∃ p m, p = (Operation.batch forkBatch .epoch).after (.withDefaults forkStore) ∧
      p.Truthful ∧ (p.store.records 1).milestones.get? 3 = some m ∧ m.status = .completed ∧
      p.changes 1 closedRun = [.updateMilestone 3 { title := some "done" }] ∧
      ∃ m', ((p.afterAll closedRun).store.records 1).milestones.get? 3 = some m' ∧
        m.SameStanding m' := by
  have hp : ((Operation.batch forkBatch .epoch).after (.withDefaults forkStore)).Truthful :=
    Truthful.after (.of_entries rfl) _
  obtain ⟨m, hm, hstatus⟩ : ∃ m,
      (((Operation.batch forkBatch .epoch).after
        (.withDefaults forkStore)).store.records 1).milestones.get? 3 = some m ∧
      m.status = .completed := ⟨_, rfl, rfl⟩
  have hchanges : ((Operation.batch forkBatch .epoch).after
      (.withDefaults forkStore)).changes 1 closedRun =
        [.updateMilestone 3 { title := some "done" }] := rfl
  have hkept : .deleteMilestone 3 ∉ ((Operation.batch forkBatch .epoch).after
      (.withDefaults forkStore)).changes 1 closedRun := by
    rw [hchanges]
    decide
  have hend := hp.sameStanding_afterAll hm (.inl hstatus) hkept
  exact ⟨_, m, rfl, hp, hm, hstatus, hchanges, hend.1⟩

/-- In the contract of a batch every milestone has the stamps of its status, and so has every
milestone that the batch creates.  Then every milestone has them after the batch, whichever time it
is, and a milestone that has a start and is not deleted keeps that start. -/
theorem stamped_after_batch (p : Planner) (b : Batch) (now : Instant)
    (hstored : ∀ m ∈ (p.store.records b.contractId).milestones.toList, m.Stamped)
    (hcreated : ∀ m, .createMilestone m ∈ b.mutations → m.Stamped) :
    (∀ m ∈ (((Operation.batch b now).after p).store.records b.contractId).milestones.toList,
        m.Stamped) ∧
      ∀ id m start, (p.store.records b.contractId).milestones.get? id = some m →
        m.actualStart = some start → .deleteMilestone id ∉ b.mutations →
          ∃ m', (((Operation.batch b now).after p).store.records b.contractId).milestones.get? id =
            some m' ∧ m'.actualStart = some start := by
  have hcourse := p.course_batch b now b.contractId
  refine ⟨hcourse.stamped (fun m hm => ?_) hstored, fun id m start hm hstart hkept =>
    hcourse.actualStart hm hstart fun hmem => ?_⟩
  · exact hcreated m (mem_mutations_of_mem_changes (Mutation.mem_of_mem_flatMap_parts hm nofun nofun))
  · exact hkept (mem_mutations_of_mem_changes (Mutation.mem_of_mem_flatMap_parts hmem nofun nofun))

/-- The first noon of 1970. -/
def firstNoon : Instant := .onDay 0 43200 0

/-- Starts the first milestone of the fork, and holds it up. -/
def holdUp : Batch := ⟨1, [.setStatus [1] .inProgress, .setStatus [1] .blocked]⟩

/-- Completes the milestone and creates the next one. -/
def finish : Batch :=
  ⟨1, [.setProgress [⟨1, 100⟩], .createMilestone { id := 5, contractId := 1, title := "next" }]⟩

/-- The milestone is started at noon and completed at an earlier time, and has the stamps
nevertheless. -/
theorem stamped_after_finish :
    ∃ p, p = (Operation.batch holdUp firstNoon).after (.withDefaults forkStore) ∧
      (∀ m ∈ (p.store.records 1).milestones.toList, m.Stamped) ∧
      (∀ m, .createMilestone m ∈ finish.mutations → m.Stamped) ∧
      (∀ m ∈ (((Operation.batch finish .epoch).after p).store.records 1).milestones.toList,
        m.Stamped) ∧
      ∃ m', (((Operation.batch finish .epoch).after p).store.records 1).milestones.get? 1 =
        some m' ∧ m'.actualStart = some firstNoon := by
  have hstored : ∀ m ∈ (((Operation.batch holdUp firstNoon).after
      (.withDefaults forkStore)).store.records 1).milestones.toList, m.Stamped := by decide
  have hcreated : ∀ m, .createMilestone m ∈ finish.mutations → m.Stamped := by
    intro m hm
    simp only [finish, List.mem_cons, reduceCtorEq, Mutation.createMilestone.injEq, false_or,
      List.not_mem_nil, or_false] at hm
    rw [hm]
    decide
  obtain ⟨hend, hstart⟩ := stamped_after_batch _ finish .epoch hstored hcreated
  exact ⟨_, rfl, hstored, hcreated, hend, hstart 1 _ firstNoon rfl rfl (by decide)⟩

end Planner

end Milestones
