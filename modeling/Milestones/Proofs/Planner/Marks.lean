import Milestones.Proofs.Graph.Listing
import Milestones.Proofs.Planner.Course
import Milestones.Proofs.Planner.Requests
import Milestones.Proofs.Planner.Rescheduling

/-!
# Marks follow the schedule

If the settings ask for it, the critical marks of a contract are set after every batch that touches
its schedule.  They are not set if there is no schedule then, because a duration leaves its range
for instance, and after that they may be out of date.  But as long as there is no schedule there is
nothing that they should agree with, and to get a schedule again takes a batch that touches it.  So
whenever the schedule of a contract can be computed, its marks are right.

Setting the marks never fails by itself: the schedule has the milestones of the records, and they
name the contract, or else there would be no graph.

## Main definitions

* `ContractRecords.Marked`: the marks are right, if there is a schedule.

## Main statements

* `ContractRecords.exists_applyAll_markWrites`, `ContractRecords.marked_of_markWrites`: setting the
  marks.
* `Operation.keepsMarks`: every operation keeps the marks right.
* `Planner.marked_afterAll`: the marks after a run.
-/

namespace Milestones

open Outcome

namespace ContractRecords

variable {r r' : ContractRecords} {s : Schedule}

/-- If the schedule of the records can be computed, every mark is what it says. -/
def Marked (r : ContractRecords) : Prop :=
  ∀ s, r.schedule = .ok s → ∀ m ∈ r.milestones.toList, m.criticalPath = s.timetable.isCritical m.id

/-- Marks are no part of the outline. -/
theorem SameButMarks.outline_eq (h : r.SameButMarks r') (hcontract : r'.contractId = r.contractId) :
    r'.outline = r.outline := by
  refine ContractRecords.outline_eq hcontract h.dependencies_eq fun id => ?_
  have hmilestone := congrArg (Option.map Milestone.outline) (h.milestone_eq id)
  rwa [Option.map_map, Option.map_map] at hmilestone

/-! ## When marks are right -/

theorem marked_of_schedule_eq_error {e : Failure ScheduleError} (h : r.schedule = .error e) :
    r.Marked := fun _ hs => nomatch h.symm.trans hs

/-- Records with one outline have one order of work and one timetable. -/
theorem exists_schedule_of_outline (h : r'.outline = r.outline) (hs : r'.schedule = .ok s) :
    ∃ s', r.schedule = .ok s' ∧ s'.order = s.order ∧ s'.timetable = s.timetable := by
  have hsame : r'.schedule.map (fun s => (s.order, s.timetable)) =
      r.schedule.map fun s => (s.order, s.timetable) :=
    map_congr_of_outline schedule_outline (fun _ => rfl) h
  rw [hs] at hsame
  cases hschedule : r.schedule with
  | error e =>
    rw [hschedule] at hsame
    cases hsame
  | ok s' =>
    rw [hschedule] at hsame
    obtain ⟨horder, htimetable⟩ := Prod.mk.inj (Except.ok.inj hsame)
    exact ⟨s', rfl, horder.symm, htimetable.symm⟩

/-- Where neither outlines nor marks change, the marks stay right. -/
theorem Marked.congr (hr : r.Marked) (houtline : r'.outline = r.outline)
    (hmarks : ∀ id, (r'.milestones.get? id).map Milestone.criticalPath =
      (r.milestones.get? id).map Milestone.criticalPath) : r'.Marked := by
  intro s hs m hm
  obtain ⟨s', hs', -, htimetable⟩ := exists_schedule_of_outline houtline hs
  have hget : r'.milestones.get? m.id = some m := Table.mem_toList_iff_get?.1 hm
  have hsame := hmarks m.id
  rw [hget, Option.map_some] at hsame
  obtain ⟨m', hm', hmark⟩ := Option.map_eq_some_iff.1 hsame.symm
  have hid : m'.id = m.id := Table.recordId_of_get? hm'
  rw [← hmark, hr s' hs' m' (Table.mem_of_get? hm'), hid, htimetable]

/-! ## Setting the marks -/

/-- Records that make a graph name their contract. -/
theorem namesContract_of_schedule (h : r.schedule = .ok s) : r.NamesContract := by
  obtain ⟨g, hg, -⟩ := bind_eq_ok.1 h
  exact (Graph.exists_ofRecords_iff.1 ⟨g, ofExcept_eq_ok.1 hg⟩).1

/-- Several milestones that are there can be replaced. -/
theorem applyAll_replaceMilestone {ms : List Milestone}
    (h : ∀ m ∈ ms, m.contractId = r.contractId ∧ r.milestones.contains m.id = true) :
    r.applyAll (ms.map .replaceMilestone) =
      .ok { r with milestones := ms.foldl Table.insert r.milestones } := by
  induction ms generalizing r with
  | nil => rfl
  | cons first rest ih =>
    obtain ⟨hcontract, hcontains⟩ := h first List.mem_cons_self
    rw [List.map_cons, applyAll_of_apply (apply_replaceMilestone hcontract hcontains),
      ih fun m hm => ?_]
    · rfl
    · obtain ⟨hcontract, hcontains⟩ := h m (List.mem_cons_of_mem _ hm)
      exact ⟨hcontract, Table.contains_insert.2 (.inr hcontains)⟩

/-- The milestones whose marks are wrong are those of the records, with the other mark. -/
theorem exists_of_mem_staleMarks (h : r.schedule = .ok s) {m : Milestone}
    (hm : m ∈ Planner.staleMarks s) : ∃ x ∈ r.milestones.toList,
      m = { x with criticalPath := !x.criticalPath } ∧
        m.criticalPath = s.timetable.isCritical m.id := by
  obtain ⟨x, hx, rfl⟩ := List.mem_map.1 hm
  obtain ⟨hmem, hstale⟩ := List.mem_filter.1 hx
  refine ⟨x, (mem_milestones_iff_of_schedule h).1 hmem, rfl, ?_⟩
  change (!x.criticalPath) = s.timetable.isCritical x.id
  revert hstale
  cases x.criticalPath <;> cases s.timetable.isCritical x.id <;> decide

/-- The marks of a schedule of the records can be set. -/
theorem applyAll_markWrites (h : r.schedule = .ok s) :
    r.applyAll (Planner.markWrites s) =
      .ok { r with milestones := (Planner.staleMarks s).foldl Table.insert r.milestones } := by
  refine applyAll_replaceMilestone fun m hm => ?_
  obtain ⟨x, hx, rfl, -⟩ := exists_of_mem_staleMarks h hm
  have hcontains := Table.contains_of_mem hx
  exact ⟨namesContract_of_schedule h x hx, hcontains⟩

/-- Once they are set, they are right. -/
theorem marked_of_markWrites (h : r.schedule = .ok s)
    (hr' : r.applyAll (Planner.markWrites s) = .ok r') : r'.Marked := by
  have hsame := SameButMarks.of_applyAll_markWrites h hr'
  cases (applyAll_markWrites h).symm.trans hr'
  intro s' hs' m hm
  -- The outline is the same as before, and so is the timetable.
  obtain ⟨s'', hs'', -, htimetable⟩ := exists_schedule_of_outline (hsame.outline_eq rfl) hs'
  cases h.symm.trans hs''
  rw [← htimetable]
  have hget := Table.mem_toList_iff_get?.1 hm
  rw [Table.get?_foldl_insert] at hget
  rcases Option.or_eq_some_iff.1 hget with hfound | ⟨hnone, hold⟩
  · obtain ⟨-, -, -, hmark⟩ := exists_of_mem_staleMarks h
      (List.mem_reverse.1 (List.mem_of_find?_eq_some hfound))
    exact hmark
  · -- A milestone that was not replaced had the right mark.
    by_contra hwrong
    have hmem := (mem_milestones_iff_of_schedule h).2 (Table.mem_of_get? hold)
    have hstale : { m with criticalPath := !m.criticalPath } ∈ Planner.staleMarks s :=
      List.mem_map_of_mem (List.mem_filter.2 ⟨hmem, by simpa using hwrong⟩)
    exact List.find?_eq_none.1 hnone _ (List.mem_reverse.2 hstale) (beq_self_eq_true _)

end ContractRecords

namespace Planner

variable {p q : Planner}

/-! ## Operations -/

/-- Setting the marks of a contract leaves them right.  Where the store cannot be reached, they have
to be right before. -/
theorem SyncEnds.marks_right {c : ContractId} {result : Outcome PlannerError Nat}
    (h : SyncEnds p c result q) (hp : p.Truthful)
    (hoff : p.store.offline = true → (p.store.records c).Marked) : (q.store.records c).Marked := by
  cases h with
  | failed h =>
    cases h with
    | offline _ h => exact hoff h
    | failed _ _ h => exact ContractRecords.marked_of_schedule_eq_error h
  | @settled s _ h hnone =>
    refine ContractRecords.marked_of_markWrites (hp.schedule_of_scheduleEnds h) ?_
    rw [markWrites, hnone]
    rfl
  | @refused s _ e h happly =>
    have hwrites := ContractRecords.applyAll_markWrites (hp.schedule_of_scheduleEnds h)
    cases hoffline : q.store.offline with
    | true =>
      rw [h.store_eq] at hoffline ⊢
      exact hoff hoffline
    | false =>
      obtain ⟨s', hs'⟩ : ∃ s', q.store.apply c (markWrites s) = .ok s' :=
        ⟨_, Store.apply_eq_ok.2 ⟨hoffline, _, hwrites, rfl⟩⟩
      cases hs'.symm.trans happly
  | marked h happly =>
    obtain ⟨r, hr, hrecords⟩ := Store.records_of_apply happly
    rw [store_stored, hrecords, if_pos rfl]
    exact ContractRecords.marked_of_markWrites (hp.schedule_of_scheduleEnds h) hr

theorem SyncEnds.settings_eq {c : ContractId} {result : Outcome PlannerError Nat}
    (h : SyncEnds p c result q) : q.settings = p.settings := by
  cases h with
  | failed h => exact h.settings_eq
  | settled h => exact h.settings_eq
  | refused h => exact h.settings_eq
  | marked h => exact h.settings_eq

theorem BatchEnds.settings_eq {b : Batch} {now : Instant}
    {result : Outcome PlannerError BatchOutcome} (h : BatchEnds p b now result q) :
    q.settings = p.settings := by
  cases h with
  | marked _ _ _ _ hsync => exact hsync.settings_eq
  | fault _ _ _ _ hsync => exact hsync.settings_eq
  | _ => rfl

/-- A batch keeps the marks of its contract right, if the settings ask for it. -/
theorem BatchEnds.marks_right {b : Batch} {now : Instant}
    {result : Outcome PlannerError BatchOutcome} (h : BatchEnds p b now result q) (hp : p.Truthful)
    (hflags : p.settings.persistCriticalFlags = true)
    (hmarked : (p.store.records b.contractId).Marked) : (q.store.records b.contractId).Marked := by
  have hsync : ∀ {ws s result q}, p.store.apply b.contractId ws = .ok s →
      SyncEnds (p.stored b.contractId s) b.contractId result q →
      (q.store.records b.contractId).Marked := by
    intro ws s result q happly h
    refine h.marks_right (hp.stored happly) fun hoff => ?_
    obtain ⟨hon, r, -, rfl⟩ := Store.apply_eq_ok.1 happly
    cases hon.symm.trans hoff
  cases h with
  | offline => exact hmarked
  | rejected => exact hmarked
  | idle => exact hmarked
  | refused => exact hmarked
  | committed _ hplan happly hnomarks =>
    rw [marksAfter, hflags, Bool.true_and] at hnomarks
    obtain ⟨-, hkept⟩ := of_plan_of_not_touches (f := Milestone.criticalPath) hplan hnomarks happly
      (fun h => h.criticalPath_eq) fun _ _ => rfl
    exact hmarked.congr (outline_of_plan hplan hnomarks happly) hkept
  | marked _ _ happly _ h => exact hsync happly h
  | fault _ _ happly _ h => exact hsync happly h

/-- The settings ask for marks, the memory is true, and the marks are right wherever there is a
schedule. -/
structure KeepsMarks (p : Planner) : Prop where
  persists : p.settings.persistCriticalFlags = true
  truthful : p.Truthful
  marked : ∀ c, (p.store.records c).Marked

end Planner

/-- Every operation keeps the marks right. -/
theorem Operation.keepsMarks {p : Planner} (hp : p.KeepsMarks) (o : Operation) :
    (o.after p).KeepsMarks := by
  refine ⟨?_, hp.truthful.after o, fun c => ?_⟩
  · cases o with
    | batch b now => exact (Planner.batchEnds p b now).settings_eq ▸ hp.persists
    | sync c => exact (Planner.syncEnds p c).settings_eq ▸ hp.persists
    | schedule c => exact (Planner.scheduleEnds p c).settings_eq ▸ hp.persists
    | outage offline => exact hp.persists
    | lapse cs => exact hp.persists
    | rehash hashing => exact hp.persists
  · cases o with
    | batch b now =>
      have hends := Planner.batchEnds p b now
      by_cases hc : c = b.contractId
      · subst hc
        exact hends.marks_right hp.truthful hp.persists (hp.marked _)
      · rw [Operation.after, hends.records_of_ne hc]
        exact hp.marked c
    | sync c' =>
      have hends := Planner.syncEnds p c'
      by_cases hc : c = c'
      · subst hc
        exact hends.marks_right hp.truthful fun _ => hp.marked c
      · rw [Operation.after, (hends.sameButMarks_of_remembered (hp.truthful c')).1 c hc]
        exact hp.marked c
    | schedule c' =>
      rw [Operation.after, (Planner.scheduleEnds p c').store_eq]
      exact hp.marked c
    | outage offline => exact hp.marked c
    | lapse cs => exact hp.marked c
    | rehash hashing => exact hp.marked c

namespace Planner

/-- A planner that remembers nothing yet starts on an empty store, and its settings ask for marks.
After every run, whatever becomes of its operations, the schedule of a contract either cannot be
computed, or every stored milestone of the contract is marked exactly if it is critical. -/
theorem marked_afterAll {p : Planner} (hstore : p.store.contracts = .empty)
    (hmemory : p.memory.entries = .empty) (hflags : p.settings.persistCriticalFlags = true)
    (os : List Operation) (c : ContractId) :
    ∀ s, ((p.afterAll os).store.records c).schedule = .ok s →
      ∀ m ∈ ((p.afterAll os).store.records c).milestones.toList,
        m.criticalPath = s.timetable.isCritical m.id := by
  have hstart : p.KeepsMarks := by
    refine ⟨hflags, Truthful.of_entries hmemory, fun c s _ m hm => ?_⟩
    rw [Store.records, hstore] at hm
    exact absurd hm List.not_mem_nil
  exact (afterAll_invariant (P := KeepsMarks) (fun _ o hp => o.keepsMarks hp) hstart os).marked c

end Planner

/-! ## A run with marks -/

/-- A planner on an empty store that sets marks. -/
def marking (weights : RiskWeights) : Planner :=
  ⟨{ riskWeights := weights, persistCriticalFlags := true }, {}, { enabled := true }⟩

/-- Two milestones are planned, and then the shorter one is made the longer one. -/
def overtaking : List Operation :=
  let a : Milestone := { id := 1, contractId := 1, title := "a", estimatedDuration := some 5 }
  let b : Milestone := { id := 2, contractId := 1, title := "b", estimatedDuration := some 3 }
  [.batch ⟨1, [.createMilestone a, .createMilestone b]⟩ .epoch,
    .batch ⟨1, [.updateMilestone 2 { estimatedDuration := some 9 }]⟩ .epoch]

-- The weights are a variable here, since the evaluation should not come to their defaults.
/-- In the end the second milestone is critical. -/
theorem exists_schedule_afterAll_overtaking (weights : RiskWeights) :
    ∃ s, (((marking weights).afterAll overtaking).store.records 1).schedule = .ok s ∧
      s.timetable.critical = [2] := ⟨_, by cbv, by cbv⟩

/-- The mark goes over to the second milestone. -/
theorem marked_afterAll_overtaking : (marking {}).store.contracts = .empty ∧
    (marking {}).settings.persistCriticalFlags = true ∧
      ∃ s, (((marking {}).afterAll overtaking).store.records 1).schedule = .ok s ∧
        s.timetable.critical = [2] ∧
          ∀ m ∈ (((marking {}).afterAll overtaking).store.records 1).milestones.toList,
            m.criticalPath = s.timetable.isCritical m.id := by
  obtain ⟨s, hs, hcritical⟩ := exists_schedule_afterAll_overtaking {}
  exact ⟨rfl, rfl, s, hs, hcritical, Planner.marked_afterAll rfl rfl rfl overtaking 1 s hs⟩

end Milestones
