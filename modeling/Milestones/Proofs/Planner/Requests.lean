import Milestones.Proofs.Planner.Integrity

/-!
# Requests and their answers

Everything that can be asked of a planner, as data, with the answers.  Most requests are questions
about the schedule of one contract.  They differ in what they make of the schedule, and that is a
function of the schedule and the settings.

## Main definitions

* `Question`, `Request`, `Reply`: what can be asked, and the answers.
* `Request.run`: the operation of a planner behind a request.
* `Planner.replies`: the answers to several requests, with the store after each of them.

## Main statements

* `Question.on_run`: a question asks for a schedule and computes its answer from it.
* `Planner.on_loadGraph`, `Planner.on_isAcyclic`, `Planner.on_order`, `Planner.on_trend`: the other
  requests that read.
* `Planner.on_attemptTimeline`, `Planner.store_of_attemptTimeline`: one of several timelines.
-/

namespace Milestones

/-- A question about the schedule of a contract. -/
inductive Question where
  | schedule
  | critical
  | timeline
  | completion (now : Instant)
  | delays (now : Instant)
  | risk
deriving DecidableEq

/-- What can be asked of a planner. -/
inductive Request where
  | about (c : ContractId) (x : Question)
  | isAcyclic (c : ContractId)
  | order (c : ContractId)
  | timelines (cs : List ContractId)
  | trend (c : ContractId) (now : Instant)
  | batch (b : Batch) (now : Instant)
  | sync (c : ContractId)
  | forget (c : ContractId)
  | forgetAll
deriving DecidableEq

/-- The answers. -/
inductive Reply where
  | schedule (s : Schedule)
  | milestones (ms : List Milestone)
  | timeline (t : Timeline)
  | completion (x : Completion)
  | delays (r : DelayReport)
  | risk (r : RiskAssessment)
  | truth (b : Bool)
  | order (ids : List MilestoneId)
  | timelines (ts : List (ContractId × Except PlannerError Timeline))
  | trend (t : Trend)
  | batch (o : BatchOutcome)
  | count (n : Nat)
  | done

/-- The operation behind a question. -/
def Question.run (c : ContractId) : Question → Planner.Run Reply
  | schedule => do return .schedule (← Planner.schedule c)
  | critical => do return .milestones (← Planner.criticalMilestones c)
  | timeline => do return .timeline (← Planner.timeline c)
  | completion now => do return .completion (← Planner.completion c now)
  | delays now => do return .delays (← Planner.delays c now)
  | risk => do return .risk (← Planner.risk c)

/-- The operation behind a request. -/
def Request.run : Request → Planner.Run Reply
  | about c x => x.run c
  | isAcyclic c => do return .truth (← Planner.isAcyclic c)
  | order c => do return .order (← Planner.order c)
  | timelines cs => do return .timelines (← Planner.timelines cs)
  | trend c now => do return .trend (← Planner.trend c now)
  | batch b now => do return .batch (← Planner.applyBatch b now)
  | sync c => do return .count (← Planner.syncCritical c)
  | forget c => do
    Planner.forget c
    return .done
  | forgetAll => do
    Planner.forgetAll
    return .done

/-- The answer to a question, given the schedule. -/
def Question.answer (settings : Settings) (s : Schedule) : Question → Outcome PlannerError Reply
  | schedule => .ok (.schedule s)
  | critical => .ok (.milestones
      ((s.timetable.critical.filterMap s.graph.milestone?).map fun m =>
        { m with criticalPath := true }))
  | timeline => .ok (.timeline (.ofSchedule s (s.anchor settings.scheduleStart)))
  | completion now => .ok (.completion
      (.compute s.graph.milestones
        (.ofTimetable s.timetable (s.anchor settings.scheduleStart)) now))
  | delays now => .ok (.delays
      (.compute s.graph.milestones (.ofTimetable s.timetable (s.anchor settings.scheduleStart))
        (some s.timetable) now))
  | risk => (Outcome.ofExcept .weights (RiskAssessment.compute s settings.riskWeights)).map .risk

namespace Planner

variable {α β : Type} {p q : Planner}

/-- The answers to several requests, each with the store after it.  Before every request the hash
maps may be arranged in another way. -/
def replies (p : Planner) : List (Hashing × Request) → List (Outcome PlannerError Reply × Store)
  | [] => []
  | (hashing, r) :: rest =>
    let after := r.run.on (p.rehash hashing)
    (after.1, after.2.store) :: replies after.2 rest

/-- What an operation returns may be put into another form. -/
theorem Run.on_map (x : Run α) (f : α → β) (p : Planner) :
    (do return f (← x) : Run β).on p = ((x.on p).1.map f, (x.on p).2) := by
  cases hx : x.on p with
  | mk result q =>
    cases result with
    | ok a => exact Run.on_bind_of_ok hx _
    | error e => exact Run.on_bind_of_error hx _

/-! ## Questions about a schedule -/

theorem ScheduleEnds.settings_eq {c : ContractId} {result : Outcome PlannerError Schedule}
    (h : ScheduleEnds p c result q) : q.settings = p.settings := by
  cases h <;> rfl

/-- What is computed from a schedule and the settings changes nothing. -/
theorem on_schedule_bind (answer : Settings → Schedule → Outcome PlannerError α)
    {f : Schedule → Run α} (hf : ∀ s p, (f s).on p = (answer p.settings s, p)) (c : ContractId)
    (p : Planner) :
    (schedule c >>= f).on p =
      (((schedule c).on p).1 >>= fun s => answer p.settings s, ((schedule c).on p).2) := by
  have hends := scheduleEnds p c
  cases hschedule : (schedule c).on p with
  | mk result q =>
    rw [hschedule] at hends
    cases result with
    | ok s => rw [Run.on_bind_of_ok hschedule, hf, hends.settings_eq]; rfl
    | error e => rw [Run.on_bind_of_error hschedule]; rfl

theorem on_timeline (c : ContractId) (p : Planner) :
    (timeline c).on p =
      (((schedule c).on p).1 >>= fun s =>
        .ok (Timeline.ofSchedule s (s.anchor p.settings.scheduleStart)), ((schedule c).on p).2) :=
  on_schedule_bind
    (fun settings s => .ok (Timeline.ofSchedule s (s.anchor settings.scheduleStart)))
    (fun _ _ => rfl) c p

end Planner

/-- A question asks for the schedule and answers from it. -/
theorem Question.on_run (x : Question) (c : ContractId) (p : Planner) :
    (x.run c).on p = (((Planner.schedule c).on p).1 >>= fun s => x.answer p.settings s,
      ((Planner.schedule c).on p).2) := by
  have hbind : ∀ {f : Schedule → Planner.Run Reply},
      (∀ s p, (f s).on p = (x.answer p.settings s, p)) → (Planner.schedule c >>= f).on p = _ :=
    fun hf => Planner.on_schedule_bind (fun settings s => x.answer settings s) hf c p
  cases x with
  | schedule => exact hbind fun _ _ => rfl
  | critical =>
    rw [run, Planner.criticalMilestones, bind_assoc]
    exact hbind fun _ _ => rfl
  | timeline =>
    rw [run, Planner.timeline, bind_assoc]
    exact hbind fun _ _ => rfl
  | completion now =>
    rw [run, Planner.completion, bind_assoc]
    exact hbind fun _ _ => rfl
  | delays now =>
    rw [run, Planner.delays, bind_assoc]
    exact hbind fun _ _ => rfl
  | risk =>
    rw [run, Planner.risk, bind_assoc]
    refine hbind fun s p => ?_
    rw [Planner.Run.on_map, Planner.Run.on_bind_get, Planner.Run.on_ofExcept]
    rfl

/-! ## Other questions -/

/-- The graph of what is stored for a contract. -/
def Store.graph (s : Store) (c : ContractId) : Outcome PlannerError Graph :=
  if s.offline then .error (.refused (.store .unavailable))
  else Outcome.ofExcept (fun e => .schedule (.graph e)) (s.records c).graph

/-- The trend of what is stored for a contract. -/
def Store.trend (s : Store) (width : Duration) (c : ContractId) (now : Instant) :
    Outcome PlannerError Trend :=
  if s.offline then .error (.refused (.store .unavailable))
  else (Trend.compute ((s.records c).milestones.toList.map Milestone.id) (s.records c).history width
    now s.hashing).mapError (Failure.map .trend)

/-- One of several timelines, or the reason why there is none. -/
abbrev Entry := ContractId × Except PlannerError Timeline

/-- What becomes of one timeline among several: a refusal is an answer, a fault is not. -/
def timelineEntry (c : ContractId) : Outcome PlannerError Timeline → Outcome PlannerError Entry
  | .ok t => .ok (c, .ok t)
  | .error (.refused e) => .ok (c, .error e)
  | .error (.fault f) => .error (.fault f)

namespace Planner

variable {α : Type} {p : Planner}

theorem Run.on_ofOutcome {ε : Type} (f : ε → PlannerError) (x : Outcome ε α) (p : Planner) :
    (Run.ofOutcome f x).on p = (x.mapError (Failure.map f), p) := by
  cases x <;> rfl

theorem on_loadGraph (c : ContractId) (p : Planner) :
    (loadGraph c).on p = (p.store.graph c, p) := by
  rw [Store.graph]
  cases hoffline : p.store.offline with
  | true => rw [on_loadGraph_offline hoffline]; rfl
  | false => rw [on_loadGraph_online hoffline]; rfl

theorem on_isAcyclic (c : ContractId) (p : Planner) :
    (isAcyclic c).on p =
      (if (p.memory.get? c).isSome then .ok true else (p.store.graph c).map Graph.isAcyclic, p) := by
  rw [isAcyclic, Run.on_bind_get]
  cases p.memory.get? c with
  | some s => rfl
  | none => exact (Run.on_map _ _ p).trans (by rw [on_loadGraph]; rfl)

theorem on_order (c : ContractId) (p : Planner) :
    (order c).on p =
      (match p.memory.get? c with
        | some s => .ok s.order.ids
        | none => do
          let g ← p.store.graph c
          (Outcome.ofExcept (fun r => .schedule (.cycle r)) g.workOrder).map WorkOrder.ids, p) := by
  cases hmemory : p.memory.get? c with
  | some s => exact on_order_of_some hmemory
  | none =>
    have hload := on_loadGraph c p
    rw [order, Run.on_bind_get, hmemory]
    cases hgraph : p.store.graph c with
    | error e =>
      rw [hgraph] at hload
      exact Run.on_bind_of_error hload _
    | ok g =>
      rw [hgraph] at hload
      refine (Run.on_bind_of_ok hload _).trans ?_
      rw [Run.on_map, Run.on_ofExcept]
      rfl

theorem on_trend (c : ContractId) (now : Instant) (p : Planner) :
    (trend c now).on p = (p.store.trend p.settings.trendBucket c now, p) := by
  rw [Store.trend]
  cases hoffline : p.store.offline with
  | true =>
    have hload := Run.on_load_of_error (p := p) (fun s => s.loadMilestones c)
      (Store.loadMilestones_offline c hoffline)
    rw [trend, Run.on_bind_of_error hload]
    rfl
  | false =>
    have hmilestones := Run.on_load_of_ok (p := p) (fun s => s.loadMilestones c)
      (Store.loadMilestones_online c hoffline)
    have hhistory := Run.on_load_of_ok (p := p) (fun s => s.loadHistory c)
      (Store.loadHistory_online c hoffline)
    rw [trend, Run.on_bind_of_ok hmilestones, Run.on_bind_of_ok hhistory, Run.on_bind_get,
      Run.on_ofOutcome]
    rfl

/-! ## Several timelines -/

/-- One of several timelines. -/
def attemptTimeline (c : ContractId) : Run Entry := do
  try
    return (c, .ok (← timeline c))
  catch
    | .refused e => pure (c, .error e)
    | .fault f => throw (.fault f)

theorem timelines_eq (cs : List ContractId) : timelines cs = cs.mapM attemptTimeline := rfl

theorem on_attemptTimeline (c : ContractId) (p : Planner) :
    (attemptTimeline c).on p = (timelineEntry c ((timeline c).on p).1, ((timeline c).on p).2) := by
  cases htimeline : (timeline c).on p with
  | mk result q =>
    cases result with
    | ok t =>
      -- An answer leaves the attempt early.
      have hanswer : (timeline c >>= fun t => pure (.error (c, .ok t)) : Run (Except Entry Entry)).on
          p = (.ok (.error (c, .ok t)), q) := Run.on_bind_of_ok htimeline _
      exact Run.on_bind_of_ok (Run.on_tryCatch_of_ok hanswer _) _
    | error e =>
      cases e with
      | refused e =>
        refine Run.on_bind_of_ok (a := (.ok (c, .error e) : Except Entry Entry)) (q := q) ?_ _
        exact Run.on_tryCatch_of_error (Run.on_bind_of_error htimeline _) _
      | fault f =>
        refine Run.on_bind_of_error (e := .fault f) (q := q) ?_ _
        exact Run.on_tryCatch_of_error (Run.on_bind_of_error htimeline _) _

theorem store_of_attemptTimeline (c : ContractId) (p : Planner) :
    ((attemptTimeline c).on p).2.store = p.store := by
  rw [on_attemptTimeline, on_timeline, (scheduleEnds p c).store_eq]

/-- Operations that leave the store alone, one after the other. -/
theorem Run.store_of_mapM {β : Type} {f : α → Run β} (hf : ∀ a p, ((f a).on p).2.store = p.store)
    (as : List α) (p : Planner) : ((as.mapM f).on p).2.store = p.store := by
  induction as generalizing p with
  | nil => rfl
  | cons a rest ih =>
    rw [List.mapM_cons, ← hf a p]
    cases hfirst : (f a).on p with
    | mk result q =>
      cases result with
      | error e => rw [Run.on_bind_of_error hfirst]
      | ok b => rw [Run.on_bind_of_ok hfirst, Run.on_map, ih]

end Planner

end Milestones
