import Milestones.Proofs.Planner.Run
import Milestones.Proofs.Schedule.CriticalChain

/-!
# Records stay in order

Whatever is asked of a planner, in whichever order, the records in its store stay in order.  For
batches this is a fact about planning.  The critical marks need one more: they are written from a
schedule that may have been remembered, and so they are harmless only because a remembered
schedule is always that of the records as they are.

## Main definitions

* `Store.WellFormed`: the records of all contracts are in order.
* `Planner.Truthful`, `Planner.Sound`: true memories of the records, and records in order.
* `Operation`, `Planner.afterAll`: what can be asked of a planner, and the planner after a run.

## Main statements

* `Operation.sound`: every operation keeps a planner sound.
* `Planner.wellFormed_afterAll`: after every run all records are in order, and no schedule is
  refused for a cycle, for records that make no graph, or for a negative duration.
-/

namespace Milestones

/-! ## Memory -/

namespace Memory

theorem get?_insert (m : Memory) (c c' : ContractId) (s : Schedule) :
    (m.insert c s).get? c' = if m.enabled = true ∧ c = c' then some s else m.get? c' := by
  rw [insert]
  cases m.enabled with
  | false => simp
  | true =>
    simp only [if_true, true_and, get?, Table.get?_insert]
    change (if c = c' then _ else _ : Option Remembered).map _ = _
    split <;> rfl

theorem get?_forget (m : Memory) (c c' : ContractId) :
    (m.forget c).get? c' = if c = c' then none else m.get? c' := by
  simp only [forget, get?, Table.get?_erase]
  split <;> rfl

/-- Nothing comes into a memory by losses. -/
theorem get?_of_lose {m : Memory} {cs : List ContractId} {c : ContractId} {s : Schedule}
    (h : (m.lose cs).get? c = some s) : m.get? c = some s := by
  simp only [lose, get?, Table.get?_filter] at h
  obtain ⟨e, he, rfl⟩ := Option.map_eq_some_iff.1 h
  rw [get?, (Option.filter_eq_some_iff.1 he).1]
  rfl

end Memory

/-! ## Schedules of records in order -/

/-- The records of all contracts are in order.  Those of a contract that was never written are. -/
def Store.WellFormed (s : Store) : Prop := ∀ c, (s.records c).WellFormed

namespace ContractRecords

/-- The schedule of records in order can only leave the range of durations. -/
theorem WellFormed.schedule_eq_error {r : ContractRecords} (hr : r.WellFormed)
    {e : Failure ScheduleError} (h : r.schedule = .error e) :
    (∃ id, e = .refused (.overflow id)) ∨ e = .fault .durationRange := by
  obtain ⟨g, hg, hholds, hacyclic⟩ := hr.exists_graph
  have hcompute : Schedule.compute g = .error e := by
    rw [schedule, hg] at h
    exact h
  cases e with
  | fault f =>
    cases Graph.compute_eq_fault hholds.linked hcompute
    exact .inr rfl
  | refused e =>
    rcases Graph.compute_eq_refused hholds.linked hcompute with
      ⟨report, hcycle, -⟩ | ⟨id, hid, hneg, -⟩ | ⟨id, rfl⟩
    · obtain ⟨o, ho⟩ := (Graph.exists_workOrder_iff hholds.linked).2 hacyclic
      cases hcycle.symm.trans ho
    · obtain ⟨m, hm⟩ := Graph.exists_milestone? hid
      have hmem := (hholds.mem_milestones m).1 (Graph.mem_milestones_of_milestone? hm)
      rw [Graph.duration, hm, Option.map_some, Option.getD_some] at hneg
      exact absurd hneg (Int.not_lt.2 (hr.zero_le_plannedDuration hmem))
    · exact .inl ⟨id, rfl⟩

/-- The milestones of a schedule are those of the records. -/
theorem mem_milestones_iff_of_schedule {r : ContractRecords} {s : Schedule}
    (h : r.schedule = .ok s) {m : Milestone} :
    m ∈ s.graph.milestones ↔ m ∈ r.milestones.toList := by
  obtain ⟨g, hg, h⟩ := Outcome.bind_eq_ok.1 h
  rw [(Graph.compute_eq_ok h).1]
  exact (Graph.holds_of_ofRecords (Outcome.ofExcept_eq_ok.1 hg)).mem_milestones m

end ContractRecords

namespace Planner

variable {p q : Planner}

/-! ## Truthful memories -/

/-- What is remembered of a contract is the schedule of its records. -/
def Truthful (p : Planner) : Prop :=
  ∀ c s, p.memory.get? c = some s → (p.store.records c).schedule = .ok s

namespace Truthful

/-- A planner that remembers nothing is truthful. -/
theorem of_entries (h : p.memory.entries = .empty) : p.Truthful := by
  intro c s hs
  rw [Memory.get?, h] at hs
  cases hs

/-- Schedules are remembered as they are computed. -/
theorem of_scheduleEnds (hp : p.Truthful) {c : ContractId}
    {result : Outcome PlannerError Schedule} (h : ScheduleEnds p c result q) : q.Truthful := by
  cases h with
  | remembered => exact hp
  | offline => exact hp
  | failed => exact hp
  | computed _ _ h =>
    intro c' s' hs'
    rw [Memory.get?_insert] at hs'
    split at hs'
    · rename_i hc
      cases hs'
      exact hc.2 ▸ h
    · exact hp c' s' hs'

/-- A question for a schedule is answered with that of the records. -/
theorem schedule_of_scheduleEnds (hp : p.Truthful) {c : ContractId} {s : Schedule}
    (h : ScheduleEnds p c (.ok s) q) : (q.store.records c).schedule = .ok s := by
  cases h with
  | remembered h => exact hp c s h
  | computed _ _ h => exact h

/-- A transaction leaves a truthful planner, because the schedule of its contract is forgotten. -/
theorem stored (hp : p.Truthful) {c : ContractId} {ws : List Write} {s' : Store}
    (happly : p.store.apply c ws = .ok s') : (p.stored c s').Truthful := by
  obtain ⟨r, -, hrecords⟩ := Store.records_of_apply happly
  intro c' x hx
  rw [memory_stored, Memory.get?_forget] at hx
  split at hx
  · cases hx
  · rename_i hne
    rw [store_stored, hrecords, if_neg hne]
    exact hp c' x hx

end Truthful

/-! ## Sound planners -/

/-- The records of all contracts are in order, and what is remembered is the schedule of the
records. -/
structure Sound (p : Planner) : Prop where
  wellFormed : p.store.WellFormed
  schedule_eq : ∀ c s, p.memory.get? c = some s → (p.store.records c).schedule = .ok s

namespace Sound

theorem truthful (hp : p.Sound) : p.Truthful := hp.schedule_eq

/-- A question for a schedule leaves a sound planner. -/
theorem of_scheduleEnds (hp : p.Sound) {c : ContractId} {result : Outcome PlannerError Schedule}
    (h : ScheduleEnds p c result q) : q.Sound :=
  ⟨h.store_eq.symm ▸ hp.wellFormed, hp.truthful.of_scheduleEnds h⟩

/-- A transaction that leaves records in order leaves a sound planner. -/
theorem stored (hp : p.Sound) {c : ContractId} {ws : List Write} {s' : Store}
    (happly : p.store.apply c ws = .ok s')
    (hr : ∀ r, (p.store.records c).applyAll ws = .ok r → r.WellFormed) :
    (p.stored c s').Sound := by
  obtain ⟨r, hr', hrecords⟩ := Store.records_of_apply happly
  refine ⟨fun c' => ?_, hp.truthful.stored happly⟩
  rw [store_stored, hrecords]
  split
  · exact hr r hr'
  · exact hp.wellFormed c'

/-- Marks are written from a schedule of the records. -/
theorem of_syncEnds (hp : p.Sound) {c : ContractId} {result : Outcome PlannerError Nat}
    (h : SyncEnds p c result q) : q.Sound := by
  cases h with
  | failed h => exact hp.of_scheduleEnds h
  | settled h => exact hp.of_scheduleEnds h
  | refused h => exact hp.of_scheduleEnds h
  | @marked s q s' h happly =>
    have hq := hp.of_scheduleEnds h
    refine hq.stored happly fun r hr => ?_
    refine ContractRecords.applyAll_replaceMilestone_invariant (fun m hm r hcontract _ hr => ?_)
      (hq.wellFormed c) hr
    refine hr.insert_milestone hcontract ?_
    obtain ⟨x, hx, rfl⟩ := List.mem_map.1 hm
    have hmem := (List.mem_filter.1 hx).1
    exact (hq.wellFormed c).zero_le_duration x
      ((ContractRecords.mem_milestones_iff_of_schedule (hp.truthful.schedule_of_scheduleEnds h)).1
        hmem)

/-- The writes of an accepted batch leave a sound planner. -/
theorem stored_of_plan (hp : p.Sound) {b : Batch} {now : Instant} {d : Draft} {e : Effect}
    (hplan : (p.store.draft b).plan b now = .ok (d, e)) {s' : Store}
    (happly : p.store.apply b.contractId e.writes = .ok s') : (p.stored b.contractId s').Sound := by
  refine hp.stored happly fun r hr => ?_
  have hstart : ((p.store.draft b).records (p.store.records b.contractId).history).WellFormed := by
    rw [Store.records_draft]
    exact hp.wellFormed b.contractId
  have hend := (Draft.steps_of_plan hplan).invariant (P := fun d =>
    (d.records (p.store.records b.contractId).history).WellFormed) (fun h hd => h.wellFormed hd)
    hstart
  have hwrites := Store.applyAll_of_plan (hp.wellFormed b.contractId).namesContract hplan
  cases hwrites.symm.trans hr
  exact hend.with_history _

theorem of_batchEnds (hp : p.Sound) {b : Batch} {now : Instant}
    {result : Outcome PlannerError BatchOutcome} (h : BatchEnds p b now result q) : q.Sound := by
  cases h with
  | offline => exact hp
  | rejected => exact hp
  | idle => exact hp
  | refused => exact hp
  | committed _ hplan happly => exact hp.stored_of_plan hplan happly
  | marked _ hplan happly _ hsync => exact (hp.stored_of_plan hplan happly).of_syncEnds hsync
  | fault _ hplan happly _ hsync => exact (hp.stored_of_plan hplan happly).of_syncEnds hsync

/-- A sound planner that reaches its store has an order of work for every contract. -/
theorem exists_order (hp : p.Sound) (hon : p.store.offline = false) (c : ContractId) :
    ∃ ids, (order c).on p = (.ok ids, p) := by
  cases hmemory : p.memory.get? c with
  | some s => exact ⟨_, on_order_of_some hmemory⟩
  | none =>
    obtain ⟨g, o, hg, ho⟩ := (hp.wellFormed c).exists_workOrder
    exact ⟨_, on_order_of_none hmemory hon hg ho⟩

/-- A sound planner that reaches its store fails to schedule a contract only where a duration
leaves its range. -/
theorem schedule_eq_error (hp : p.Sound) (hon : p.store.offline = false) {c : ContractId}
    {e : Failure PlannerError} (h : ((schedule c).on p).1 = .error e) :
    (∃ id, e = .refused (.schedule (.overflow id))) ∨ e = .fault .durationRange := by
  have hends := scheduleEnds p c
  rw [h] at hends
  generalize ((schedule c).on p).2 = q at hends
  cases hends with
  | offline _ hoff => cases hon.symm.trans hoff
  | failed _ _ hfailed =>
    rcases (hp.wellFormed c).schedule_eq_error hfailed with ⟨id, rfl⟩ | rfl
    · exact .inl ⟨id, rfl⟩
    · exact .inr rfl

end Sound

end Planner

/-! ## Runs -/

/-- The hash maps of a planner are arranged in another way. -/
def Planner.rehash (p : Planner) (hashing : Hashing) : Planner :=
  { p with store := p.store.rehash hashing }

/-- What can be asked of a planner, and what happens to it.  The store may be out of reach for some
time, the memory may lose schedules of its own accord, and hash maps may be arranged in another
way. -/
inductive Operation where
  | batch (b : Batch) (now : Instant)
  | sync (c : ContractId)
  | schedule (c : ContractId)
  | outage (offline : Bool)
  | lapse (cs : List ContractId)
  | rehash (hashing : Hashing)

namespace Operation

/-- The planner after an operation, whether or not it succeeds. -/
def after (p : Planner) : Operation → Planner
  | batch b now => ((Planner.applyBatch b now).on p).2
  | sync c => ((Planner.syncCritical c).on p).2
  | schedule c => ((Planner.schedule c).on p).2
  | outage offline => { p with store := { p.store with offline := offline } }
  | lapse cs => { p with memory := p.memory.lose cs }
  | rehash hashing => p.rehash hashing

/-- Every operation keeps a planner sound. -/
theorem sound {p : Planner} (hp : p.Sound) (o : Operation) : (o.after p).Sound := by
  cases o with
  | batch b now => exact hp.of_batchEnds (Planner.batchEnds p b now)
  | sync c => exact hp.of_syncEnds (Planner.syncEnds p c)
  | schedule c => exact hp.of_scheduleEnds (Planner.scheduleEnds p c)
  | outage offline => exact ⟨hp.wellFormed, hp.schedule_eq⟩
  | lapse cs => exact ⟨hp.wellFormed, fun c s hs => hp.schedule_eq c s (Memory.get?_of_lose hs)⟩
  | rehash hashing => exact ⟨hp.wellFormed, hp.schedule_eq⟩

end Operation

namespace Planner

/-- The planner after several operations. -/
def afterAll (p : Planner) (os : List Operation) : Planner := os.foldl Operation.after p

/-- What every operation keeps, a run keeps. -/
theorem afterAll_invariant {P : Planner → Prop} (step : ∀ p o, P p → P (Operation.after p o))
    {p : Planner} (hp : P p) (os : List Operation) : P (p.afterAll os) := by
  induction os generalizing p with
  | nil => exact hp
  | cons o rest ih => exact ih (step p o hp)

/-- A new planner has the store and the settings that it was given, and remembers nothing. -/
theorem create_eq_ok {store : Store} {settings : Settings} {p : Planner}
    (h : create store settings = .ok p) :
    p.settings = settings ∧ p.store = store ∧ p.memory.entries = .empty := by
  rw [create, Outcome.bind_eq_ok] at h
  obtain ⟨_, -, h⟩ := h
  obtain ⟨memory, hmemory, h⟩ := Outcome.bind_eq_ok.1 h
  rw [Outcome.mapError_eq_ok, Memory.create] at hmemory
  split at hmemory <;> cases hmemory
  cases h
  exact ⟨rfl, rfl, rfl⟩

/-- A planner that remembers nothing yet starts on records in order.  Then they are in order after
every run, whatever becomes of its operations.  If the store can be reached then, every contract
has an order of work, and its schedule is missing only where a duration leaves its range. -/
theorem wellFormed_afterAll {p : Planner} (hstore : p.store.WellFormed)
    (hmemory : p.memory.entries = .empty) (os : List Operation) :
    (p.afterAll os).store.WellFormed ∧
      ((p.afterAll os).store.offline = false → ∀ c,
        (∃ ids, ((order c).on (p.afterAll os)).1 = .ok ids) ∧
          ∀ e, ((schedule c).on (p.afterAll os)).1 = .error e →
            (∃ id, e = .refused (.schedule (.overflow id))) ∨ e = .fault .durationRange) := by
  have hstart : p.Sound := ⟨hstore, Truthful.of_entries hmemory⟩
  have hend := afterAll_invariant (P := Sound) (fun _ o hp => o.sound hp) hstart os
  refine ⟨hend.wellFormed, fun hon c => ⟨?_, fun e he => hend.schedule_eq_error hon he⟩⟩
  obtain ⟨ids, hids⟩ := hend.exists_order hon c
  exact ⟨ids, by rw [hids]⟩

end Planner

/-! ## The fork in a store -/

/-- A contract that was never written is in order. -/
theorem ContractRecords.wellFormed_none (c : ContractId) :
    ({ contractId := c } : ContractRecords).WellFormed where
  named := fun _ _ hm => absurd (Table.mem_of_get? hm) List.not_mem_nil
  ends := fun _ he => absurd he List.not_mem_nil
  distinct := fun _ he => absurd he List.not_mem_nil
  acyclic := fun _ hcycle => by
    obtain ⟨_, ⟨e, he, -⟩, -⟩ := Relation.TransGen.head'_iff.1 hcycle
    exact List.not_mem_nil he
  zero_le_duration := fun _ hm => absurd hm List.not_mem_nil

theorem wellFormed_forkStore : forkStore.WellFormed := by
  intro c
  rw [forkStore, Store.records_ofSnapshot]
  split
  · rename_i hc
    cases hc
    have hcontract : ∀ m ∈ Graph.forkMilestones, m.contractId = 1 := by decide
    have hacyclic : Graph.fork.Acyclic :=
      (Graph.exists_workOrder_iff (Graph.built_of_ofRecords Graph.ofRecords_fork).linked).1
        ⟨⟨1, [2, 4, 1, 3]⟩, by cbv⟩
    rw [(Graph.built_of_ofRecords Graph.ofRecords_fork).linked.acyclic_iff] at hacyclic
    exact
      { named := fun id m hm => ⟨Table.recordId_of_get? hm, hcontract m (Table.mem_of_get? hm)⟩
        ends := by decide
        distinct := by decide
        acyclic := hacyclic
        zero_le_duration := by decide }
  · exact ContractRecords.wellFormed_none c

/-- The fork is read, changed while the store is out of reach, changed again, and marked. -/
def forkRun : List Operation :=
  [.schedule 1, .outage true, .batch forkBatch .epoch, .outage false, .batch forkBatch .epoch,
    .sync 1, .outage false]

/-- The records of the fork stay in order, and so there is an order of work. -/
theorem wellFormed_afterAll_fork : forkStore.WellFormed ∧
    ∃ p, Planner.create forkStore { persistCriticalFlags := true } = .ok p ∧
      (p.afterAll forkRun).store.WellFormed ∧
        ∃ ids, ((Planner.order 1).on (p.afterAll forkRun)).1 = .ok ids := by
  obtain ⟨p, hp⟩ : ∃ p, Planner.create forkStore { persistCriticalFlags := true } = .ok p :=
    ⟨_, rfl⟩
  obtain ⟨-, hstore, hmemory⟩ := Planner.create_eq_ok hp
  obtain ⟨hend, hquestions⟩ :=
    Planner.wellFormed_afterAll (hstore ▸ wellFormed_forkStore) hmemory forkRun
  exact ⟨wellFormed_forkStore, p, hp, hend, (hquestions rfl 1).1⟩

end Milestones
