import Milestones.Proofs.Planner.Requests
import Milestones.Proofs.Progress.Trend
import Milestones.Proofs.Schedule.Faults

/-!
# What stops a planner

A planner either answers, refuses, or is stopped by a fault.  There are three ways to be stopped,
and none of them is a mistake in a request or in a record: each record may be in order, and the
settings may have been validated.  Slack may add up beyond the longest duration, a bucket of a trend
may end beyond the calendar, and a new planner may be told to remember for longer than a memory
can.  For everything that can be asked of a planner, the exact condition is given here.

## Main definitions

* `ContractRecords.SlackOverflows`, `Planner.Overflows`: contracts whose schedule cannot be had.
* `Request.Stops`: the requests that stop a planner.

## Main statements

* `ContractRecords.schedule_eq_fault_iff`: which records have no schedule for a fault.
* `Planner.create_eq_fault_iff`, `Request.run_eq_fault_iff`: what stops a new planner, and a planner
  that is asked for something.
* `Planner.stopped_iff`: nothing else stops a planner.
-/

namespace Milestones

open Outcome

namespace ContractRecords

/-- The records make a graph, but its slack adds up to more than the longest duration. -/
def SlackOverflows (r : ContractRecords) : Prop := ∃ g, r.graph = .ok g ∧ g.SlackOverflows

/-- Only too much slack stops the computation of a schedule. -/
theorem schedule_eq_fault_iff {r : ContractRecords} {f : Fault} :
    r.schedule = .error (.fault f) ↔ f = .durationRange ∧ r.SlackOverflows := by
  rw [schedule, bind_eq_error]
  constructor
  · rintro (h | ⟨g, hg, h⟩)
    · obtain ⟨_, -, h⟩ := ofExcept_eq_error.1 h
      cases h
    · have hg := ofExcept_eq_ok.1 hg
      obtain ⟨hf, hslack⟩ :=
        (Graph.compute_eq_fault_iff (Graph.built_of_ofRecords hg).linked).1 h
      exact ⟨hf, g, hg, hslack⟩
  · rintro ⟨hf, g, hg, hslack⟩
    exact .inr ⟨g, ofExcept_eq_ok.2 hg,
      (Graph.compute_eq_fault_iff (Graph.built_of_ofRecords hg).linked).2 ⟨hf, hslack⟩⟩

end ContractRecords

/-- A memory cannot keep schedules for too long, unless it keeps none. -/
theorem Memory.create_eq_error_iff {capacity : UInt64} {lifetime : Option Nat} {f : Fault} :
    create capacity lifetime = .error f ↔
      f = .lifetime ∧ capacity ≠ 0 ∧ lifetime.any (fun n => longestLifetime < n) = true := by
  rw [create]
  split
  · rename_i h
    exact ⟨fun he => ⟨(Except.error.inj he).symm, h⟩, fun he => he.1 ▸ rfl⟩
  · rename_i h
    constructor
    · intro he
      cases he
    · exact fun he => absurd he.2 h

namespace Planner

variable {p q : Planner}

/-- Nothing is remembered of the contract, and what is stored of it has too much slack. -/
def Overflows (p : Planner) (c : ContractId) : Prop :=
  p.memory.get? c = none ∧ p.store.offline = false ∧ (p.store.records c).SlackOverflows

/-! ## Schedules and marks -/

theorem ScheduleEnds.eq_fault_iff {c : ContractId} {result : Outcome PlannerError Schedule}
    (h : ScheduleEnds p c result q) {f : Fault} :
    result = .error (.fault f) ↔ f = .durationRange ∧ p.Overflows c := by
  cases h with
  | remembered hmemory => exact ⟨nofun, fun ⟨_, hnone, _⟩ => nomatch hnone.symm.trans hmemory⟩
  | offline _ hoff => exact ⟨nofun, fun ⟨_, _, hon, _⟩ => nomatch hon.symm.trans hoff⟩
  | @failed e hnone hon h =>
    have he : (.error (e.map .schedule) : Outcome PlannerError Schedule) = .error (.fault f) ↔
        e = .fault f := by
      cases e <;> simp [Failure.map]
    have hoverflows : p.Overflows c ↔ (p.store.records c).SlackOverflows :=
      ⟨fun h => h.2.2, fun h => ⟨hnone, hon, h⟩⟩
    rw [he, hoverflows, ← ContractRecords.schedule_eq_fault_iff, h, Except.error.injEq]
  | computed _ _ h =>
    refine ⟨nofun, fun ⟨_, _, _, hslack⟩ => ?_⟩
    cases h.symm.trans (ContractRecords.schedule_eq_fault_iff.2 ⟨rfl, hslack⟩)

/-- A question for a schedule overflows as little or as much as before. -/
theorem ScheduleEnds.overflows_iff {c : ContractId} {result : Outcome PlannerError Schedule}
    (h : ScheduleEnds p c result q) (c' : ContractId) : q.Overflows c' ↔ p.Overflows c' := by
  cases h with
  | remembered => rfl
  | offline => rfl
  | failed => rfl
  | computed hnone hon h =>
    rw [Overflows, Overflows, Memory.get?_insert]
    split
    · rename_i hc
      obtain ⟨-, rfl⟩ := hc
      refine ⟨fun h => (nomatch h.1), fun ⟨_, _, hslack⟩ => ?_⟩
      cases h.symm.trans (ContractRecords.schedule_eq_fault_iff.2 ⟨rfl, hslack⟩)
    · rfl

theorem SyncEnds.eq_fault_iff {c : ContractId} {result : Outcome PlannerError Nat}
    (h : SyncEnds p c result q) {f : Fault} :
    result = .error (.fault f) ↔ f = .durationRange ∧ p.Overflows c := by
  have hok : ∀ {s : Schedule} {q : Planner}, ScheduleEnds p c (.ok s) q →
      ¬(f = .durationRange ∧ p.Overflows c) :=
    fun h hover => nomatch h.eq_fault_iff.2 hover
  cases h with
  | failed h =>
    rw [← h.eq_fault_iff, Except.error.injEq, Except.error.injEq]
  | settled h => exact ⟨nofun, fun hover => absurd hover (hok h)⟩
  | refused h => exact ⟨nofun, fun hover => absurd hover (hok h)⟩
  | marked h => exact ⟨nofun, fun hover => absurd hover (hok h)⟩

/-! ## Batches -/

/-- The batch is stored, and then the marks of its contract cannot be set for too much slack. -/
def MarksOverflow (p : Planner) (b : Batch) (now : Instant) : Prop :=
  p.store.offline = false ∧ ∃ d e s, (p.store.draft b).plan b now = .ok (d, e) ∧ e.writes ≠ [] ∧
    p.store.apply b.contractId e.writes = .ok s ∧ p.marksAfter e = true ∧
      (s.records b.contractId).SlackOverflows

/-- Right after a transaction, nothing is remembered of its contract. -/
theorem overflows_stored {c : ContractId} {ws : List Write} {s : Store}
    (happly : p.store.apply c ws = .ok s) :
    (p.stored c s).Overflows c ↔ (s.records c).SlackOverflows := by
  obtain ⟨hon, _, -, rfl⟩ := Store.apply_eq_ok.1 happly
  refine ⟨fun h => h.2.2, fun h => ⟨?_, hon, h⟩⟩
  rw [memory_stored, Memory.get?_forget, if_pos rfl]

theorem BatchEnds.eq_fault_iff {b : Batch} {now : Instant}
    {result : Outcome PlannerError BatchOutcome} (h : BatchEnds p b now result q) {f : Fault} :
    result = .error (.fault f) ↔ f = .durationRange ∧ p.MarksOverflow b now := by
  -- What is planned and stored is the same in any two accounts of a batch.
  have hnot : ∀ {d : Draft} {e : Effect}, (p.store.draft b).plan b now = .ok (d, e) →
      (e.writes ≠ [] → p.marksAfter e = true → ∀ s,
        p.store.apply b.contractId e.writes = .ok s →
          ¬(s.records b.contractId).SlackOverflows) → ¬p.MarksOverflow b now := by
    rintro d e hplan hnone ⟨-, d', e', s, hplan', hsome, happly, hmarks, hslack⟩
    cases hplan.symm.trans hplan'
    exact hnone hsome hmarks s happly hslack
  cases h with
  | offline hoff => exact ⟨nofun, fun ⟨_, hon, _⟩ => nomatch hon.symm.trans hoff⟩
  | rejected _ hplan =>
    exact ⟨nofun, fun ⟨_, _, _, _, _, hplan', _⟩ => nomatch hplan.symm.trans hplan'⟩
  | idle _ hplan hnone =>
    exact ⟨nofun, fun ⟨_, hover⟩ => absurd hover (hnot hplan fun hsome => absurd hnone hsome)⟩
  | refused _ hplan happly =>
    refine ⟨nofun, fun ⟨_, hover⟩ => absurd hover (hnot hplan fun _ _ s hs => ?_)⟩
    cases happly.symm.trans hs
  | committed _ hplan _ hmarks =>
    refine ⟨nofun, fun ⟨_, hover⟩ => absurd hover (hnot hplan fun _ hmarks' => ?_)⟩
    cases hmarks.symm.trans hmarks'
  | marked _ hplan happly _ hsync hresult =>
    refine ⟨nofun, fun ⟨_, hover⟩ => absurd hover (hnot hplan fun _ _ s hs hslack => ?_)⟩
    cases happly.symm.trans hs
    exact hresult _ (hsync.eq_fault_iff.2 ⟨rfl, (overflows_stored happly).2 hslack⟩)
  | fault hon hplan happly hmarks hsync hsome =>
    obtain ⟨rfl, hover⟩ := hsync.eq_fault_iff.1 rfl
    have hslack := (overflows_stored happly).1 hover
    constructor
    · intro h
      cases h
      exact ⟨rfl, hon, _, _, _, hplan, hsome, happly, hmarks, hslack⟩
    · rintro ⟨rfl, -⟩
      rfl

/-! ## Several timelines -/

theorem timeline_eq_fault_iff (c : ContractId) (p : Planner) {f : Fault} :
    ((timeline c).on p).1 = .error (.fault f) ↔ f = .durationRange ∧ p.Overflows c := by
  rw [on_timeline, ← (scheduleEnds p c).eq_fault_iff]
  cases ((schedule c).on p).1 <;> simp [bind, Except.bind]

theorem attemptTimeline_eq_fault_iff (c : ContractId) (p : Planner) {f : Fault} :
    ((attemptTimeline c).on p).1 = .error (.fault f) ↔ f = .durationRange ∧ p.Overflows c := by
  rw [on_attemptTimeline, ← timeline_eq_fault_iff]
  cases ((timeline c).on p).1 with
  | ok t => simp [timelineEntry]
  | error e => cases e <;> simp [timelineEntry]

/-- A refused timeline is an answer among others. -/
theorem exists_fault_of_attemptTimeline {c : ContractId} {e : Failure PlannerError}
    (h : (attemptTimeline c).on p = (.error e, q)) : ∃ f, e = .fault f := by
  rw [on_attemptTimeline] at h
  cases hresult : ((timeline c).on p).1 with
  | ok t => simp [hresult, timelineEntry] at h
  | error e' =>
    cases e' with
    | refused e' => simp [hresult, timelineEntry] at h
    | fault f =>
      simp only [hresult, timelineEntry, Prod.mk.injEq, Except.error.injEq] at h
      exact ⟨f, h.1.symm⟩

theorem overflows_attemptTimeline (c c' : ContractId) (p : Planner) :
    ((attemptTimeline c).on p).2.Overflows c' ↔ p.Overflows c' := by
  rw [on_attemptTimeline, on_timeline]
  exact (scheduleEnds p c).overflows_iff c'

/-- Several timelines are stopped by any one of them. -/
theorem timelines_eq_fault_iff (cs : List ContractId) (p : Planner) {f : Fault} :
    ((timelines cs).on p).1 = .error (.fault f) ↔
      f = .durationRange ∧ ∃ c ∈ cs, p.Overflows c := by
  rw [timelines_eq]
  induction cs generalizing p with
  | nil => exact ⟨nofun, fun ⟨_, c, hc, _⟩ => nomatch hc⟩
  | cons c rest ih =>
    rw [List.mapM_cons]
    simp only [List.mem_cons, exists_eq_or_imp]
    cases hattempt : (attemptTimeline c).on p with
    | mk result q =>
      have hfirst : ∀ f, result = .error (.fault f) ↔ f = .durationRange ∧ p.Overflows c :=
        fun f => by rw [← attemptTimeline_eq_fault_iff, hattempt]
      have hsame : ∀ c', q.Overflows c' ↔ p.Overflows c' := fun c' => by
        rw [← overflows_attemptTimeline c c' p, hattempt]
      cases result with
      | error e =>
        rw [Run.on_bind_of_error hattempt]
        obtain ⟨f', rfl⟩ := exists_fault_of_attemptTimeline hattempt
        obtain ⟨rfl, hover⟩ := (hfirst f').1 rfl
        simp [hover, eq_comm]
      | ok entry =>
        have hnot : f = .durationRange → ¬p.Overflows c := fun hf hover =>
          nomatch (hfirst f).2 ⟨hf, hover⟩
        have hrest := ih q
        simp only [hsame] at hrest
        rw [Run.on_bind_of_ok hattempt, Run.on_map, map_eq_error, hrest]
        exact and_congr_right fun hf => (or_iff_right (hnot hf)).symm

/-! ## New planners -/

/-- A new planner is stopped only if it is to remember schedules for too long. -/
theorem create_eq_fault_iff (store : Store) (settings : Settings) {f : Fault} :
    create store settings = .error (.fault f) ↔ f = .lifetime ∧ settings.validate = .ok () ∧
      settings.cacheCapacity ≠ 0 ∧
        ∃ ttl, settings.cacheTtl = some ttl ∧ (Memory.longestLifetime : Int) < ttl.nanos := by
  have hlong : (settings.cacheTtl.map fun ttl => ttl.nanos.toNat).any
      (fun n => Memory.longestLifetime < n) = true ↔
        ∃ ttl, settings.cacheTtl = some ttl ∧ (Memory.longestLifetime : Int) < ttl.nanos := by
    cases settings.cacheTtl with
    | none => simp
    | some ttl => simp [Int.lt_toNat]
  rw [create, bind_eq_error, ← hlong]
  constructor
  · rintro (h | ⟨_, hvalid, h⟩)
    · obtain ⟨_, -, h⟩ := ofExcept_eq_error.1 h
      cases h
    rcases bind_eq_error.1 h with h | ⟨_, -, h⟩
    · obtain ⟨_, hmemory, h⟩ := mapError_eq_error.1 h
      cases h
      obtain ⟨rfl, hcapacity, hlifetime⟩ := Memory.create_eq_error_iff.1 hmemory
      exact ⟨rfl, ofExcept_eq_ok.1 hvalid, hcapacity, hlifetime⟩
    · cases h
  · rintro ⟨rfl, hvalid, hcapacity, hlifetime⟩
    have hmemory := Memory.create_eq_error_iff.2 ⟨rfl, hcapacity, hlifetime⟩
    exact .inr ⟨(), ofExcept_eq_ok.2 hvalid,
      bind_eq_error.2 (.inl (mapError_eq_error.2 ⟨_, hmemory, rfl⟩))⟩

end Planner

/-- A question computes its answer from a schedule, and that is no reason to stop. -/
theorem Question.answer_ne_fault (x : Question) (settings : Settings) (s : Schedule) (f : Fault) :
    x.answer settings s ≠ .error (.fault f) := by
  cases x with
  | risk =>
    rw [answer, Ne, map_eq_error, ofExcept_eq_error]
    exact fun ⟨_, _, h⟩ => nomatch h
  | _ => exact nofun

theorem Store.graph_ne_fault (s : Store) (c : ContractId) (f : Fault) :
    s.graph c ≠ .error (.fault f) := by
  intro h
  rw [Store.graph] at h
  split at h
  · cases h
  · obtain ⟨_, -, h⟩ := ofExcept_eq_error.1 h
    cases h

theorem Store.trend_eq_fault_iff {s : Store} {width : Duration} {c : ContractId} {now : Instant}
    {f : Fault} :
    s.trend width c now = .error (.fault f) ↔ f = .dateRange ∧ s.offline = false ∧
      Trend.LeavesCalendar ((s.records c).milestones.toList.map Milestone.id)
        (s.records c).history width now := by
  rw [Store.trend]
  cases s.offline with
  | true => simp
  | false =>
    have hfault : ∀ e : Failure TrendError, e.map PlannerError.trend = .fault f ↔ e = .fault f := by
      intro e
      cases e <;> simp [Failure.map]
    simp only [Bool.false_eq_true, if_false, mapError_eq_error, hfault, true_and]
    rw [← Trend.compute_eq_fault_iff]
    exact exists_eq_right

namespace Request

open Planner

/-- The request stops the planner with the fault. -/
def Stops (r : Request) (p : Planner) (f : Fault) : Prop :=
  match r with
  | about c _ => f = .durationRange ∧ p.Overflows c
  | sync c => f = .durationRange ∧ p.Overflows c
  | timelines cs => f = .durationRange ∧ ∃ c ∈ cs, p.Overflows c
  | batch b now => f = .durationRange ∧ p.MarksOverflow b now
  | trend c now => f = .dateRange ∧ p.store.offline = false ∧
      Trend.LeavesCalendar ((p.store.records c).milestones.toList.map Milestone.id)
        (p.store.records c).history p.settings.trendBucket now
  | isAcyclic _ => False
  | order _ => False
  | forget _ => False
  | forgetAll => False

/-- What stops a planner, request by request. -/
theorem run_eq_fault_iff (r : Request) (p : Planner) (f : Fault) :
    (r.run.on p).1 = .error (.fault f) ↔ r.Stops p f := by
  cases r with
  | about c x =>
    rw [run, x.on_run, bind_eq_error, (scheduleEnds p c).eq_fault_iff]
    refine ⟨fun h => h.resolve_right ?_, .inl⟩
    exact fun ⟨s, _, h⟩ => x.answer_ne_fault p.settings s f h
  | isAcyclic c =>
    rw [run, Run.on_map, on_isAcyclic, map_eq_error]
    refine ⟨fun h => ?_, nofun⟩
    split at h
    · cases h
    · exact p.store.graph_ne_fault c f (map_eq_error.1 h)
  | order c =>
    rw [run, Run.on_map, on_order, map_eq_error]
    refine ⟨fun h => ?_, nofun⟩
    split at h
    · cases h
    · rcases bind_eq_error.1 h with h | ⟨g, -, h⟩
      · exact p.store.graph_ne_fault c f h
      · obtain ⟨_, -, h⟩ := ofExcept_eq_error.1 (map_eq_error.1 h)
        cases h
  | timelines cs =>
    rw [run, Run.on_map, map_eq_error]
    exact timelines_eq_fault_iff cs p
  | trend c now =>
    rw [run, Run.on_map, on_trend, map_eq_error]
    exact Store.trend_eq_fault_iff
  | batch b now =>
    rw [run, Run.on_map, map_eq_error]
    exact (batchEnds p b now).eq_fault_iff
  | sync c =>
    rw [run, Run.on_map, map_eq_error]
    exact (syncEnds p c).eq_fault_iff
  | forget c => exact ⟨nofun, nofun⟩
  | forgetAll => exact ⟨nofun, nofun⟩

end Request

/-! ## All that stops a planner -/

/-- A new planner is stopped exactly if its settings are in order, but it is to remember schedules
for longer than a memory can.  A planner in any state, asked for anything, is stopped exactly if a
schedule that it does not remember has too much slack, which includes the schedule for the marks
after a batch, or if a trend leaves the calendar. -/
theorem Planner.stopped_iff (f : Fault) :
    (∀ (store : Store) (settings : Settings),
      Planner.create store settings = .error (.fault f) ↔
        f = .lifetime ∧ settings.validate = .ok () ∧ settings.cacheCapacity ≠ 0 ∧
          ∃ ttl, settings.cacheTtl = some ttl ∧ (Memory.longestLifetime : Int) < ttl.nanos) ∧
      ∀ (r : Request) (p : Planner), (r.run.on p).1 = .error (.fault f) ↔ r.Stops p f :=
  ⟨fun store settings => Planner.create_eq_fault_iff store settings,
    fun r p => r.run_eq_fault_iff p f⟩

/-- Milestones on the brim: one takes as long as a record can say, two take no time at all. -/
def brimMilestones : List Milestone :=
  [{ id := 1, contractId := 1, title := "", estimatedDuration := some 9223372036854775000000000 },
    { id := 2, contractId := 1, title := "" }, { id := 3, contractId := 1, title := "" }]

/-- Progress on the last day of the calendar. -/
def brimReading : ProgressReading :=
  ⟨1, 100, .onDay 95026236 86399 0⟩

/-- The brim in a store. -/
def brimStore : Store :=
  .ofSnapshot { contractId := 1, milestones := brimMilestones, progressHistory := [brimReading] }

/-- On the brim the default settings do not keep a planner from being stopped, and settings that
are in order stop a new planner. -/
theorem stopped_brim :
    (∃ settings : Settings, settings.validate = .ok () ∧
      Planner.create {} settings = .error (.fault .lifetime)) ∧
      ∃ p, Planner.create brimStore {} = .ok p ∧
        ((Planner.schedule 1).on p).1 = .error (.fault .durationRange) ∧
          ((Planner.trend 1 .epoch).on p).1 = .error (.fault .dateRange) := by
  obtain ⟨g, hg, horder, htimetable⟩ : ∃ g, Graph.ofRecords 1 brimMilestones [] = .ok g ∧
      g.workOrder = .ok ⟨1, [1, 2, 3]⟩ ∧
        g.timetable ⟨1, [1, 2, 3]⟩ = .error (.fault .durationRange) :=
    ⟨_, rfl, by cbv, by cbv⟩
  have hschedule : (brimStore.records 1).schedule = .error (.fault .durationRange) :=
    bind_eq_error.2 (.inr ⟨g, ofExcept_eq_ok.2 hg,
      bind_eq_error.2 (.inr ⟨_, ofExcept_eq_ok.2 horder, bind_eq_error.2 (.inl htimetable)⟩)⟩)
  have hreadings : Trend.readings [1, 2, 3] [brimReading] = [brimReading] := by
    cbv
  have hleaves : Trend.LeavesCalendar [1, 2, 3] [brimReading] .week .epoch :=
    ⟨by decide, brimReading, brimReading, by rw [hreadings]; rfl, by rw [hreadings]; rfl,
      by decide, by decide⟩
  have htrend : brimStore.trend .week 1 .epoch = .error (.fault .dateRange) :=
    Store.trend_eq_fault_iff.2 ⟨rfl, rfl, hleaves⟩
  refine ⟨⟨{ cacheTtl := some .longest }, rfl, rfl⟩, .withDefaults brimStore, rfl, ?_, ?_⟩
  · exact (Planner.scheduleEnds _ 1).eq_fault_iff.2
      ⟨rfl, rfl, rfl, (ContractRecords.schedule_eq_fault_iff.1 hschedule).2⟩
  · rw [Planner.on_trend]
    exact htrend

end Milestones
