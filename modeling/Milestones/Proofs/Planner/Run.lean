import Milestones.Planner.Basic
import Milestones.Proofs.Change.WellFormed

/-!
# Operations of a planner, one by one

An operation takes a planner to a result and the planner afterwards.  For each operation that
reads or writes contracts, the ways in which it can end are listed here, with what was read, what
was decided and what is left.  Nothing that is proved of planners looks into an operation again.

## Main definitions

* `ContractRecords.schedule`, `Store.draft`: what the operations read off the store.
* `Planner.ScheduleEnds`, `Planner.SyncEnds`, `Planner.BatchEnds`: the ways in which an operation
  can end.

## Main statements

* `Planner.scheduleEnds`, `Planner.syncEnds`, `Planner.batchEnds`: there are no others.
* `Planner.on_order_of_some`, `Planner.on_order_of_none`: the order of work, remembered or not.
* `Planner.on_applyBatch_of_rejected`: a batch that is not accepted.
-/

namespace Milestones

open Outcome

/-! ## What is read off the store -/

/-- The schedule of the records. -/
def ContractRecords.schedule (r : ContractRecords) : Outcome ScheduleError Schedule := do
  let g ← Outcome.ofExcept .graph r.graph
  Schedule.compute g

namespace Store

/-- The milestone with an identifier, in the first contract where it is stored.  Which one is the
first depends on how the hash map of the contracts is arranged. -/
def find? (s : Store) (id : MilestoneId) : Option Milestone :=
  (s.hashing.listed s.contracts).findSome? fun r => r.milestones.get? id

/-- What is noted of a milestone that belongs to another contract. -/
def note? (s : Store) (c : ContractId) (id : MilestoneId) : Option (MilestoneId × ContractId) :=
  match s.find? id with
  | some m => if m.contractId ≠ c then some (id, m.contractId) else none
  | none => none

/-- The draft on which a batch is tried: the records of its contract, and a note of every
milestone that it takes to exist and that belongs to another contract. -/
def draft (s : Store) (b : Batch) : Draft :=
  { contractId := b.contractId
    milestones := (s.records b.contractId).milestones
    dependencies := (s.records b.contractId).dependencies
    elsewhere := ((b.referenced.filter fun id =>
      !(s.records b.contractId).milestones.contains id).filterMap
        (s.note? b.contractId)).reverse }

/-- The draft stands for the records. -/
theorem records_draft (s : Store) (b : Batch) :
    (s.draft b).records (s.records b.contractId).history = s.records b.contractId := by
  have hcontract := s.contractId_records b.contractId
  cases hrecords : s.records b.contractId
  rw [hrecords] at hcontract
  cases hcontract
  simp [draft, Draft.records, hrecords]

/-- The writes of an accepted batch lead to the records that the draft stands for in the end. -/
theorem applyAll_of_plan {s : Store} {b : Batch} {now : Instant} {d : Draft} {e : Effect}
    (hnames : (s.records b.contractId).NamesContract)
    (hplan : (s.draft b).plan b now = .ok (d, e)) :
    (s.records b.contractId).applyAll e.writes =
      .ok (d.records ((s.records b.contractId).history ++ b.readings now)) := by
  have hwrites := (Draft.steps_of_plan hplan).applyAll_eq ((s.records_draft b).symm ▸ hnames)
  rwa [records_draft, b.flatMap_readings_parts] at hwrites

variable {s : Store}

theorem loadMilestones_online (c : ContractId) (h : s.offline = false) :
    s.loadMilestones c = .ok (s.records c).milestones.toList := loadMilestones_eq_ok.2 ⟨h, rfl⟩

theorem loadDependencies_online (c : ContractId) (h : s.offline = false) :
    s.loadDependencies c = .ok (s.records c).dependencies.toList :=
  loadDependencies_eq_ok.2 ⟨h, rfl⟩

theorem loadHistory_online (c : ContractId) (h : s.offline = false) :
    s.loadHistory c = .ok (s.records c).history := by
  rw [loadHistory, checkOnline, h]
  rfl

theorem loadMilestone_online (h : s.offline = false) (id : MilestoneId) :
    s.loadMilestone id = .ok (s.find? id) := by
  rw [loadMilestone, checkOnline, h]
  rfl

theorem loadMilestones_offline (c : ContractId) (h : s.offline = true) :
    s.loadMilestones c = .error .unavailable := by
  rw [loadMilestones, checkOnline, h]
  rfl

end Store

namespace Planner

/-! ## Running -/

namespace Run

variable {α β : Type} {p q : Planner}

theorem on_ofExcept {ε : Type} (f : ε → PlannerError) (x : Except ε α) (p : Planner) :
    (ofExcept f x).on p = (Outcome.ofExcept f x, p) := by
  cases x <;> rfl

/-- An operation goes on with what the first part of it returns. -/
theorem on_bind_of_ok {x : Run α} {a : α} (h : x.on p = (.ok a, q)) (f : α → Run β) :
    (x >>= f).on p = (f a).on q := by
  have hrun : (ExceptT.run x).run p = (.ok a, q) := h
  change ((ExceptT.run (x >>= f)).run p) = _
  rw [ExceptT.run_bind, StateT.run_bind, hrun]
  rfl

/-- An operation ends where the first part of it fails. -/
theorem on_bind_of_error {x : Run α} {e : Failure PlannerError} (h : x.on p = (.error e, q))
    (f : α → Run β) : (x >>= f).on p = (.error e, q) := by
  have hrun : (ExceptT.run x).run p = (.error e, q) := h
  change ((ExceptT.run (x >>= f)).run p) = _
  rw [ExceptT.run_bind, StateT.run_bind, hrun]
  rfl

theorem on_bind_get (f : Planner → Run β) (p : Planner) : (get >>= f).on p = (f p).on p := rfl

theorem on_load_of_ok (read : Store → Except StoreError α) {a : α} (h : read p.store = .ok a) :
    (load read).on p = (.ok a, p) := by
  rw [load, on_bind_get, h]
  rfl

theorem on_load_of_error (read : Store → Except StoreError α) {e : StoreError}
    (h : read p.store = .error e) : (load read).on p = (.error (.refused (.store e)), p) := by
  rw [load, on_bind_get, h]
  rfl

/-- Only a fault gets past a handler that takes refusals. -/
theorem on_tryCatch_of_ok {x : Run α} {a : α} (h : x.on p = (.ok a, q))
    (handle : Failure PlannerError → Run α) : (tryCatch x handle).on p = (.ok a, q) := by
  have hrun : (ExceptT.run x).run p = (.ok a, q) := h
  change (ExceptT.run (tryCatch x handle)).run p = _
  rw [ExceptT.run_tryCatch, StateT.run_bind, hrun]
  rfl

theorem on_tryCatch_of_error {x : Run α} {e : Failure PlannerError}
    (h : x.on p = (.error e, q)) (handle : Failure PlannerError → Run α) :
    (tryCatch x handle).on p = (handle e).on q := by
  have hrun : (ExceptT.run x).run p = (.error e, q) := h
  change (ExceptT.run (tryCatch x handle)).run p = _
  rw [ExceptT.run_tryCatch, StateT.run_bind, hrun]
  rfl

end Run

variable {p q : Planner}

/-! ## The schedule of a contract -/

theorem on_loadGraph_online (h : p.store.offline = false) (c : ContractId) :
    (loadGraph c).on p =
      (Outcome.ofExcept (fun e => .schedule (.graph e)) (p.store.records c).graph, p) := by
  have hmilestones := Run.on_load_of_ok (fun s => s.loadMilestones c)
    (Store.loadMilestones_online c h)
  have hdependencies := Run.on_load_of_ok (fun s => s.loadDependencies c)
    (Store.loadDependencies_online c h)
  rw [loadGraph, Run.on_bind_of_ok hmilestones, Run.on_bind_of_ok hdependencies,
    Run.on_ofExcept, ContractRecords.graph, Store.contractId_records]

theorem on_loadGraph_offline (h : p.store.offline = true) (c : ContractId) :
    (loadGraph c).on p = (.error (.refused (.store .unavailable)), p) := by
  have hmilestones := Run.on_load_of_error (fun s => s.loadMilestones c)
    (Store.loadMilestones_offline c h)
  rw [loadGraph, Run.on_bind_of_error hmilestones]

/-- How a question for a schedule ends. -/
inductive ScheduleEnds (p : Planner) (c : ContractId) :
    Outcome PlannerError Schedule → Planner → Prop
  | remembered {s : Schedule} (h : p.memory.get? c = some s) : ScheduleEnds p c (.ok s) p
  | offline (hnone : p.memory.get? c = none) (h : p.store.offline = true) :
      ScheduleEnds p c (.error (.refused (.store .unavailable))) p
  | failed {e : Failure ScheduleError} (hnone : p.memory.get? c = none)
      (hon : p.store.offline = false) (h : (p.store.records c).schedule = .error e) :
      ScheduleEnds p c (.error (e.map .schedule)) p
  | computed {s : Schedule} (hnone : p.memory.get? c = none) (hon : p.store.offline = false)
      (h : (p.store.records c).schedule = .ok s) :
      ScheduleEnds p c (.ok s) { p with memory := p.memory.insert c s }

theorem scheduleEnds (p : Planner) (c : ContractId) :
    ScheduleEnds p c ((schedule c).on p).1 ((schedule c).on p).2 := by
  rw [schedule, Run.on_bind_get]
  cases hmemory : p.memory.get? c with
  | some s => exact .remembered hmemory
  | none =>
    cases hoffline : p.store.offline with
    | true =>
      rw [Run.on_bind_of_error (on_loadGraph_offline hoffline c)]
      exact .offline hmemory hoffline
    | false =>
      have hload := on_loadGraph_online hoffline c
      cases hgraph : (p.store.records c).graph with
      | error e =>
        rw [hgraph] at hload
        rw [Run.on_bind_of_error hload]
        exact .failed hmemory hoffline (e := .refused (.graph e)) (by
          rw [ContractRecords.schedule, hgraph]
          rfl)
      | ok g =>
        rw [hgraph] at hload
        rw [Run.on_bind_of_ok hload]
        have hschedule : (p.store.records c).schedule = Schedule.compute g := by
          rw [ContractRecords.schedule, hgraph]
          rfl
        cases hcompute : Schedule.compute g with
        | error e =>
          rw [Run.on_bind_of_error (e := e.map .schedule) (q := p) rfl]
          exact .failed hmemory hoffline (hschedule.trans hcompute)
        | ok s =>
          rw [Run.on_bind_of_ok (a := s) (q := p) rfl]
          exact .computed hmemory hoffline (hschedule.trans hcompute)

/-- A question for a schedule leaves the store alone. -/
theorem ScheduleEnds.store_eq {c : ContractId} {result : Outcome PlannerError Schedule}
    (h : ScheduleEnds p c result q) : q.store = p.store := by
  cases h <;> rfl

/-- A remembered schedule has its order with it. -/
theorem on_order_of_some {c : ContractId} {s : Schedule} (h : p.memory.get? c = some s) :
    (order c).on p = (.ok s.order.ids, p) := by
  rw [order, Run.on_bind_get, h]
  rfl

/-- Without a remembered schedule, the order is that of the graph of the records. -/
theorem on_order_of_none {c : ContractId} (hnone : p.memory.get? c = none)
    (hon : p.store.offline = false) {g : Graph} (hg : (p.store.records c).graph = .ok g)
    {o : WorkOrder} (ho : g.workOrder = .ok o) : (order c).on p = (.ok o.ids, p) := by
  have hload := on_loadGraph_online hon c
  rw [hg] at hload
  rw [order, Run.on_bind_get, hnone]
  refine (Run.on_bind_of_ok hload _).trans ?_
  rw [ho]
  rfl

/-! ## Critical marks -/

/-- The planner right after a transaction. -/
def stored (p : Planner) (c : ContractId) (s : Store) : Planner :=
  { p with store := s, memory := p.memory.forget c }

@[simp] theorem store_stored (p : Planner) (c : ContractId) (s : Store) :
    (p.stored c s).store = s := rfl

@[simp] theorem memory_stored (p : Planner) (c : ContractId) (s : Store) :
    (p.stored c s).memory = p.memory.forget c := rfl

/-- The writes that set the marks of a contract right. -/
def markWrites (s : Schedule) : List Write := (staleMarks s).map .replaceMilestone

/-- How marking the critical milestones ends. -/
inductive SyncEnds (p : Planner) (c : ContractId) : Outcome PlannerError Nat → Planner → Prop
  | failed {e : Failure PlannerError} {q : Planner} (h : ScheduleEnds p c (.error e) q) :
      SyncEnds p c (.error e) q
  | settled {s : Schedule} {q : Planner} (h : ScheduleEnds p c (.ok s) q)
      (hnone : staleMarks s = []) : SyncEnds p c (.ok 0) q
  | refused {s : Schedule} {q : Planner} {e : StoreError} (h : ScheduleEnds p c (.ok s) q)
      (happly : q.store.apply c (markWrites s) = .error e) :
      SyncEnds p c (.error (.refused (.store e))) q
  | marked {s : Schedule} {q : Planner} {s' : Store} (h : ScheduleEnds p c (.ok s) q)
      (happly : q.store.apply c (markWrites s) = .ok s') :
      SyncEnds p c (.ok (staleMarks s).length) (q.stored c s')

theorem on_commit_of_ok {c : ContractId} {ws : List Write} {s : Store}
    (h : p.store.apply c ws = .ok s) :
    (Run.commit c ws).on p = (.ok (), { p with store := s }) := by
  rw [Run.commit, Run.on_bind_get, h]
  rfl

theorem on_commit_of_error {c : ContractId} {ws : List Write} {e : StoreError}
    (h : p.store.apply c ws = .error e) :
    (Run.commit c ws).on p = (.error (.refused (.store e)), p) := by
  rw [Run.commit, Run.on_bind_get, h]
  rfl

theorem on_forget (p : Planner) (c : ContractId) :
    (forget c).on p = (.ok (), { p with memory := p.memory.forget c }) := rfl

/-- Where no mark is wrong, nothing is written. -/
theorem on_syncCritical_of_settled {c : ContractId} {s : Schedule}
    (h : (schedule c).on p = (.ok s, q)) (hnone : staleMarks s = []) :
    (syncCritical c).on p = (.ok 0, q) := by
  rw [syncCritical, Run.on_bind_of_ok h, hnone]
  rfl

theorem on_syncCritical_of_refused {c : ContractId} {s : Schedule} {e : StoreError}
    (h : (schedule c).on p = (.ok s, q)) (hsome : staleMarks s ≠ [])
    (happly : q.store.apply c (markWrites s) = .error e) :
    (syncCritical c).on p = (.error (.refused (.store e)), q) := by
  have hcommit : (Run.commit c ((staleMarks s).map .replaceMilestone)).on q = _ :=
    on_commit_of_error happly
  rw [syncCritical, Run.on_bind_of_ok h, if_pos (by simpa using hsome),
    Run.on_bind_of_error hcommit]

/-- The marks are written in one transaction, after which the schedule is forgotten. -/
theorem on_syncCritical_of_apply {c : ContractId} {s : Schedule} {s' : Store}
    (h : (schedule c).on p = (.ok s, q)) (hsome : staleMarks s ≠ [])
    (happly : q.store.apply c (markWrites s) = .ok s') :
    (syncCritical c).on p = (.ok (staleMarks s).length, q.stored c s') := by
  have hcommit : (Run.commit c ((staleMarks s).map .replaceMilestone)).on q = _ :=
    on_commit_of_ok happly
  rw [syncCritical, Run.on_bind_of_ok h, if_pos (by simpa using hsome),
    Run.on_bind_of_ok hcommit, Run.on_bind_of_ok (on_forget _ c)]
  rfl

theorem syncEnds (p : Planner) (c : ContractId) :
    SyncEnds p c ((syncCritical c).on p).1 ((syncCritical c).on p).2 := by
  have hends := scheduleEnds p c
  cases hschedule : (schedule c).on p with
  | mk result q =>
    rw [hschedule] at hends
    cases result with
    | error e =>
      rw [syncCritical, Run.on_bind_of_error hschedule]
      exact .failed hends
    | ok s =>
      by_cases hstale : staleMarks s = []
      · rw [on_syncCritical_of_settled hschedule hstale]
        exact .settled hends hstale
      · cases happly : q.store.apply c (markWrites s) with
        | error e =>
          rw [on_syncCritical_of_refused hschedule hstale happly]
          exact .refused hends happly
        | ok s' =>
          rw [on_syncCritical_of_apply hschedule hstale happly]
          exact .marked hends happly

/-- Marks the critical milestones, unless that is refused. -/
def attemptSync (c : ContractId) : Run Unit := do
  try
    let _ ← syncCritical c
  catch
    | .refused _ => pure ()
    | .fault f => throw (.fault f)

theorem on_attemptSync_of_fault {c : ContractId} {f : Fault}
    (h : (syncCritical c).on p = (.error (.fault f), q)) :
    (attemptSync c).on p = (.error (.fault f), q) :=
  Run.on_tryCatch_of_error (Run.on_bind_of_error h _) _

theorem on_attemptSync_of_ne_fault {c : ContractId} {result : Outcome PlannerError Nat}
    (h : (syncCritical c).on p = (result, q)) (hresult : ∀ f, result ≠ .error (.fault f)) :
    (attemptSync c).on p = (.ok (), q) := by
  cases result with
  | ok n => exact Run.on_tryCatch_of_ok (Run.on_bind_of_ok h fun _ => pure ()) _
  | error failure =>
    cases failure with
    | refused e => exact Run.on_tryCatch_of_error (Run.on_bind_of_error h fun _ => pure ()) _
    | fault f => exact absurd rfl (hresult f)

/-! ## Batches -/

theorem on_lookElsewhere_online (hon : p.store.offline = false) (ids : List MilestoneId)
    (d : Draft) :
    (lookElsewhere d ids).on p =
      (.ok { d with
        elsewhere := (ids.filterMap (p.store.note? d.contractId)).reverse ++ d.elsewhere }, p) := by
  induction ids generalizing d with
  | nil => rfl
  | cons id rest ih =>
    have hload := Run.on_load_of_ok (fun s => s.loadMilestone id)
      (Store.loadMilestone_online hon id)
    rw [lookElsewhere, Run.on_bind_of_ok hload, List.filterMap_cons, Store.note?]
    cases p.store.find? id with
    | none => exact ih d
    | some m =>
      by_cases hcontract : m.contractId = d.contractId
      · simp only [hcontract, ne_eq, not_true_eq_false, if_false]
        exact ih d
      · simp only [ne_eq, hcontract, not_false_eq_true, if_true]
        rw [ih, List.reverse_cons, List.append_assoc]
        rfl

theorem on_draftFor_online (hon : p.store.offline = false) (b : Batch) :
    (draftFor b).on p = (.ok (p.store.draft b), p) := by
  have hmilestones := Run.on_load_of_ok (fun s => s.loadMilestones b.contractId)
    (Store.loadMilestones_online b.contractId hon)
  have hdependencies := Run.on_load_of_ok (fun s => s.loadDependencies b.contractId)
    (Store.loadDependencies_online b.contractId hon)
  rw [draftFor, Run.on_bind_of_ok hmilestones, Run.on_bind_of_ok hdependencies,
    on_lookElsewhere_online hon, Store.draft]
  simp only [Draft.ofRecords, Table.ofList_toList, List.append_nil]

theorem on_draftFor_offline (hoff : p.store.offline = true) (b : Batch) :
    (draftFor b).on p = (.error (.refused (.store .unavailable)), p) := by
  have hmilestones := Run.on_load_of_error (fun s => s.loadMilestones b.contractId)
    (Store.loadMilestones_offline b.contractId hoff)
  rw [draftFor, Run.on_bind_of_error hmilestones]

/-- The marks are set after a batch of this effect. -/
def marksAfter (p : Planner) (e : Effect) : Bool :=
  p.settings.persistCriticalFlags && e.reschedules

/-- How a batch ends. -/
inductive BatchEnds (p : Planner) (b : Batch) (now : Instant) :
    Outcome PlannerError BatchOutcome → Planner → Prop
  | offline (h : p.store.offline = true) :
      BatchEnds p b now (.error (.refused (.store .unavailable))) p
  | rejected {index : Nat} {r : Rejection} (hon : p.store.offline = false)
      (hplan : (p.store.draft b).plan b now = .error (index, r)) :
      BatchEnds p b now (.error (.refused (.rejected index r))) p
  | idle {d : Draft} {e : Effect} (hon : p.store.offline = false)
      (hplan : (p.store.draft b).plan b now = .ok (d, e)) (hnone : e.writes = []) :
      BatchEnds p b now (.ok (.ofEffect e)) p
  | refused {d : Draft} {e : Effect} {error : StoreError} (hon : p.store.offline = false)
      (hplan : (p.store.draft b).plan b now = .ok (d, e))
      (happly : p.store.apply b.contractId e.writes = .error error) :
      BatchEnds p b now (.error (.refused (.store error))) p
  | committed {d : Draft} {e : Effect} {s : Store} (hon : p.store.offline = false)
      (hplan : (p.store.draft b).plan b now = .ok (d, e))
      (happly : p.store.apply b.contractId e.writes = .ok s)
      (hmarks : p.marksAfter e = false) (hsome : e.writes ≠ []) :
      BatchEnds p b now (.ok (.ofEffect e)) (p.stored b.contractId s)
  /-- Marks that cannot be set are left as they are. -/
  | marked {d : Draft} {e : Effect} {s : Store} {result : Outcome PlannerError Nat} {q : Planner}
      (hon : p.store.offline = false) (hplan : (p.store.draft b).plan b now = .ok (d, e))
      (happly : p.store.apply b.contractId e.writes = .ok s) (hmarks : p.marksAfter e = true)
      (hsync : SyncEnds (p.stored b.contractId s) b.contractId result q)
      (hresult : ∀ f, result ≠ .error (.fault f)) (hsome : e.writes ≠ []) :
      BatchEnds p b now (.ok (.ofEffect e)) q
  | fault {d : Draft} {e : Effect} {s : Store} {f : Fault} {q : Planner}
      (hon : p.store.offline = false) (hplan : (p.store.draft b).plan b now = .ok (d, e))
      (happly : p.store.apply b.contractId e.writes = .ok s) (hmarks : p.marksAfter e = true)
      (hsync : SyncEnds (p.stored b.contractId s) b.contractId (.error (.fault f)) q)
      (hsome : e.writes ≠ []) : BatchEnds p b now (.error (.fault f)) q

/-- The end of a batch after which the marks are set. -/
theorem batchEnds_of_marksAfter {b : Batch} {now : Instant} {d : Draft} {e : Effect} {s : Store}
    (hon : p.store.offline = false) (hplan : (p.store.draft b).plan b now = .ok (d, e))
    (happly : p.store.apply b.contractId e.writes = .ok s) (hmarks : p.marksAfter e = true)
    (hsome : e.writes ≠ []) {result : Outcome PlannerError BatchOutcome}
    (h : (do attemptSync b.contractId; pure (.ofEffect e) : Run BatchOutcome).on
      (p.stored b.contractId s) = (result, q)) : BatchEnds p b now result q := by
  have hsync := syncEnds (p.stored b.contractId s) b.contractId
  cases hrun : (syncCritical b.contractId).on (p.stored b.contractId s) with
  | mk marks r =>
    rw [hrun] at hsync
    by_cases hfault : ∃ f, marks = .error (.fault f)
    · obtain ⟨f, rfl⟩ := hfault
      rw [Run.on_bind_of_error (on_attemptSync_of_fault hrun)] at h
      cases h
      exact .fault hon hplan happly hmarks hsync hsome
    · have hresult : ∀ f, marks ≠ .error (.fault f) := fun f hf => hfault ⟨f, hf⟩
      rw [Run.on_bind_of_ok (on_attemptSync_of_ne_fault hrun hresult)] at h
      cases h
      exact .marked hon hplan happly hmarks hsync hresult hsome

theorem batchEnds (p : Planner) (b : Batch) (now : Instant) :
    BatchEnds p b now ((applyBatch b now).on p).1 ((applyBatch b now).on p).2 := by
  rw [applyBatch]
  cases hoffline : p.store.offline with
  | true =>
    rw [Run.on_bind_of_error (on_draftFor_offline hoffline b)]
    exact .offline hoffline
  | false =>
    rw [Run.on_bind_of_ok (on_draftFor_online hoffline b)]
    cases hplan : (p.store.draft b).plan b now with
    | error rejection => exact .rejected hoffline hplan
    | ok planned =>
      obtain ⟨d, e⟩ := planned
      rw [Run.on_bind_of_ok (a := (d, e)) (q := p) rfl]
      simp only []
      split
      · rename_i hnone
        exact .idle hoffline hplan (List.isEmpty_iff.1 hnone)
      · rename_i hsome
        have hsome : e.writes ≠ [] := fun hnone => hsome (List.isEmpty_iff.2 hnone)
        cases happly : p.store.apply b.contractId e.writes with
        | error error =>
          rw [Run.on_bind_of_error (on_commit_of_error happly)]
          exact .refused hoffline hplan happly
        | ok s =>
          rw [Run.on_bind_of_ok (on_commit_of_ok happly), Run.on_bind_of_ok (on_forget _ _),
            Run.on_bind_get]
          split
          · rename_i hmarks
            exact batchEnds_of_marksAfter hoffline hplan happly hmarks hsome rfl
          · rename_i hmarks
            exact .committed hoffline hplan happly (Bool.not_eq_true _ ▸ hmarks) hsome

/-- A batch that is not accepted is reported as planning rejected it, and nothing changes. -/
theorem on_applyBatch_of_rejected (hon : p.store.offline = false) {b : Batch} {now : Instant}
    {index : Nat} {r : Rejection} (hplan : (p.store.draft b).plan b now = .error (index, r)) :
    (applyBatch b now).on p = (.error (.refused (.rejected index r)), p) := by
  rw [applyBatch, Run.on_bind_of_ok (on_draftFor_online hon b), hplan]
  rfl

end Planner

end Milestones
