import Milestones.Proofs.Planner.Marks

/-!
# Setting the marks

To set the marks of a contract, a planner writes whole milestones back to the store, taken from a
schedule that it may have remembered for some time.  It only writes those whose mark is wrong, and
turns the mark over.  If the schedule is that of the records, the milestones in it are those of the
records as well, so that nothing but marks changes in the store, and every mark becomes what the
timetable says.

A schedule does not read marks.  So the order of work and the timetable are the same afterwards, and
there is nothing left to write when the marks are set again.

## Main definitions

* `Milestone.withMark`, `ContractRecords.withMarks`: marks as a timetable has them, and nothing else changed.

## Main statements

* `ContractRecords.applyAll_markWrites_eq_withMarks`: what the writes lead to.
* `ContractRecords.exists_schedule_withMarks`, `ContractRecords.staleMarks_eq_nil_of_withMarks`: what a
  schedule finds afterwards.
* `Planner.syncCritical_withMarks`: setting the marks, and setting them again.
-/

namespace Milestones

open Outcome

/-! ## Marked records -/

/-- The milestone, marked as a timetable has it. -/
def Milestone.withMark (t : Timetable) (m : Milestone) : Milestone :=
  { m with criticalPath := t.isCritical m.id }

theorem Milestone.recordId_withMark (t : Timetable) (m : Milestone) :
    recordId (m.withMark t) = recordId m := rfl

namespace ContractRecords

variable {r r' : ContractRecords} {s : Schedule} {t : Timetable}

/-- The records, with all milestones marked as a timetable has them. -/
def withMarks (r : ContractRecords) (t : Timetable) : ContractRecords :=
  { r with milestones := r.milestones.map (Milestone.withMark t) (Milestone.recordId_withMark t) }

/-- Records that have all marks right and are the same otherwise. -/
theorem SameButMarks.eq_withMarks (h : r.SameButMarks r') (hcontract : r'.contractId = r.contractId)
    (hmarks : ∀ m ∈ r'.milestones.toList, m.criticalPath = t.isCritical m.id) :
    r' = r.withMarks t := by
  have hmilestones : r'.milestones = (r.withMarks t).milestones := by
    refine Table.ext_get? fun id => ?_
    rw [withMarks, Table.get?_map]
    have hsame := h.milestone_eq id
    cases hget : r'.milestones.get? id with
    | none =>
      rw [hget] at hsame
      rw [Option.map_eq_none_iff.1 hsame.symm]
      rfl
    | some m' =>
      rw [hget] at hsame
      obtain ⟨m, hm, hunmarked⟩ := Option.map_eq_some_iff.1 hsame.symm
      have hid : m'.id = m.id := (Table.recordId_of_get? hget).trans (Table.recordId_of_get? hm).symm
      have hmark := hmarks m' (Table.mem_of_get? hget)
      rw [hid] at hmark
      rw [hm, Option.map_some, Milestone.withMark, ← hmark, ← Milestone.eq_of_unmarked hunmarked.symm]
  cases r'
  cases hcontract
  cases hmilestones
  cases h.dependencies_eq
  cases h.history_eq
  rfl

theorem outline_withMarks (r : ContractRecords) (t : Timetable) : (r.withMarks t).outline = r.outline := by
  refine outline_eq rfl rfl fun id => ?_
  rw [withMarks, Table.get?_map, Option.map_map]
  rfl

/-- Marks do not show in the order of work, nor in the timetable. -/
theorem exists_schedule_withMarks (h : r.schedule = .ok s) (t : Timetable) :
    ∃ s', (r.withMarks t).schedule = .ok s' ∧ s'.order = s.order ∧ s'.timetable = s.timetable :=
  exists_schedule_of_outline (r.outline_withMarks t).symm h

/-- The writes of a schedule of the records set all marks as its timetable has them. -/
theorem applyAll_markWrites_eq_withMarks (h : r.schedule = .ok s) :
    r.applyAll (Planner.markWrites s) = .ok (r.withMarks s.timetable) := by
  have happly := applyAll_markWrites h
  have hsame := SameButMarks.of_applyAll_markWrites h happly
  obtain ⟨s', hs', -, htimetable⟩ := exists_schedule_of_outline (hsame.outline_eq rfl).symm h
  have hmarked := marked_of_markWrites h happly s' hs'
  rw [htimetable] at hmarked
  rw [happly, ← hsame.eq_withMarks rfl hmarked]

/-! ## Wrong marks -/

/-- A schedule lists the milestones as the records do. -/
theorem milestones_of_schedule (h : r.schedule = .ok s) :
    s.graph.milestones = r.milestones.toList := by
  refine Table.eq_of_forall_mem_iff ?_ r.milestones.ascending fun m =>
    mem_milestones_iff_of_schedule h
  exact List.pairwise_map.2 s.graph.nodes.ascending

/-- As many milestones are written as have a wrong mark. -/
theorem length_staleMarks (h : r.schedule = .ok s) : (Planner.staleMarks s).length =
    r.milestones.toList.countP fun m => m.criticalPath != s.timetable.isCritical m.id := by
  rw [Planner.staleMarks, List.length_map, milestones_of_schedule h, List.countP_eq_length_filter]

/-- No mark is wrong once all are set. -/
theorem staleMarks_eq_nil_of_withMarks (h : (r.withMarks s.timetable).schedule = .ok s) :
    Planner.staleMarks s = [] := by
  rw [← List.length_eq_zero_iff, length_staleMarks h, List.countP_eq_zero]
  intro m hm
  obtain ⟨x, -, rfl⟩ := List.mem_map.1 hm
  simp [Milestone.withMark]

end ContractRecords

/-! ## Setting the marks twice -/

namespace Planner

variable {p q : Planner} {c : ContractId} {s : Schedule}

/-- The records of a contract have a schedule, and the planner remembers no other one for it. -/
structure Schedules (p : Planner) (c : ContractId) (s : Schedule) : Prop where
  online : p.store.offline = false
  schedule_eq : (p.store.records c).schedule = .ok s
  memory : p.memory.get? c = none ∨ p.memory.get? c = some s

namespace Schedules

/-- What a planner answers that remembers nothing is the schedule of the records. -/
theorem of_on_clear (hs : ((schedule c).on { p with memory := p.memory.clear }).1 = .ok s)
    (hmemory : p.memory.get? c = none ∨ p.memory.get? c = some s) : p.Schedules c s := by
  have hends := scheduleEnds { p with memory := p.memory.clear } c
  rw [hs] at hends
  generalize ((schedule c).on { p with memory := p.memory.clear }).2 = q at hends
  cases hends with
  | remembered h => cases h
  | computed _ hon h => exact ⟨hon, h, hmemory⟩

theorem clear (h : p.Schedules c s) : Schedules { p with memory := p.memory.clear } c s :=
  ⟨h.online, h.schedule_eq, .inl rfl⟩

/-- The planner answers with that schedule, from memory or not, and may do so again. -/
theorem exists_on_schedule (h : p.Schedules c s) :
    ∃ q, (schedule c).on p = (.ok s, q) ∧ q.store = p.store ∧ q.Schedules c s := by
  have hends := scheduleEnds p c
  have hstore := hends.store_eq
  cases hresult : (schedule c).on p with
  | mk result q =>
    rw [hresult] at hends hstore
    cases hends with
    | @remembered s' hs' =>
      have hsame : some s' = some s :=
        (h.memory.resolve_left fun hnone => nomatch hnone.symm.trans hs') ▸ hs'.symm
      cases hsame
      exact ⟨_, rfl, rfl, h⟩
    | offline _ hoff => cases h.online.symm.trans hoff
    | failed _ _ hs' => cases h.schedule_eq.symm.trans hs'
    | computed _ _ hs' =>
      cases h.schedule_eq.symm.trans hs'
      refine ⟨_, rfl, rfl, h.online, h.schedule_eq, ?_⟩
      rw [Memory.get?_insert]
      split
      · exact .inr rfl
      · exact h.memory

/-- The marks are set, and there is a schedule of the marked records that says the same. -/
theorem exists_on_syncCritical (h : p.Schedules c s) :
    ∃ q, (syncCritical c).on p = (.ok (staleMarks s).length, q) ∧
      (∀ c', q.store.records c' =
        if c = c' then (p.store.records c).withMarks s.timetable else p.store.records c') ∧
      ∃ s', q.Schedules c s' ∧ s'.order = s.order ∧ s'.timetable = s.timetable := by
  obtain ⟨q, hschedule, hstore, hq⟩ := h.exists_on_schedule
  have happly := ContractRecords.applyAll_markWrites_eq_withMarks h.schedule_eq
  by_cases hstale : staleMarks s = []
  · -- No mark was wrong, so the marked records are those that were there.
    rw [markWrites, hstale] at happly
    have hmarked := Except.ok.inj happly
    refine ⟨q, hstale ▸ on_syncCritical_of_settled hschedule hstale, fun c' => ?_, s, hq, rfl, rfl⟩
    rw [hstore]
    split
    · rename_i hc
      rw [← hc]
      exact hmarked
    · rfl
  · obtain ⟨store, hcommit⟩ : ∃ store, q.store.apply c (markWrites s) = .ok store :=
      ⟨_, Store.apply_eq_ok.2 ⟨hq.online, _, hstore ▸ happly, rfl⟩⟩
    have hrecords : ∀ c', store.records c' =
        if c = c' then (p.store.records c).withMarks s.timetable else p.store.records c' := by
      obtain ⟨r, hr, hrecords⟩ := Store.records_of_apply hcommit
      rw [hstore, happly] at hr
      cases hr
      rwa [hstore] at hrecords
    obtain ⟨s', hs', horder, htimetable⟩ :=
      ContractRecords.exists_schedule_withMarks h.schedule_eq s.timetable
    have hafter : (q.stored c store).Schedules c s' := by
      obtain ⟨hon, r, -, rfl⟩ := Store.apply_eq_ok.1 hcommit
      refine ⟨hon, ?_, .inl ?_⟩
      · rw [store_stored, hrecords, if_pos rfl, hs']
      · rw [memory_stored, Memory.get?_forget, if_pos rfl]
    exact ⟨_, on_syncCritical_of_apply hschedule hstale hcommit, hrecords, s', hafter, horder,
      htimetable⟩

end Schedules

/-- The schedule of a contract can be worked out from the store, and the planner remembers that one
or none.  Setting the marks then returns how many of them are wrong.  Afterwards every milestone of
the contract is marked as the timetable has it, and nothing else is changed, in no contract.  The
schedule has the same order of work and the same timetable as before, whether the planner is asked
as it is or remembers nothing.  Setting the marks once more returns zero and leaves the store as it
is. -/
theorem syncCritical_withMarks
    (hs : ((schedule c).on { p with memory := p.memory.clear }).1 = .ok s)
    (hmemory : p.memory.get? c = none ∨ p.memory.get? c = some s) :
    ∃ n q, (syncCritical c).on p = (.ok n, q) ∧
      n = (p.store.records c).milestones.toList.countP
        (fun m => m.criticalPath != s.timetable.isCritical m.id) ∧
      (∀ c', q.store.records c' =
        if c = c' then (p.store.records c).withMarks s.timetable else p.store.records c') ∧
      (∃ s', ((schedule c).on q).1 = .ok s' ∧
        ((schedule c).on { q with memory := q.memory.clear }).1 = .ok s' ∧
          s'.order = s.order ∧ s'.timetable = s.timetable) ∧
      ∃ q', (syncCritical c).on q = (.ok 0, q') ∧ q'.store = q.store := by
  have h := Schedules.of_on_clear hs hmemory
  obtain ⟨q, hsync, hrecords, s', hq, horder, htimetable⟩ := h.exists_on_syncCritical
  obtain ⟨q', hschedule, hstore, -⟩ := hq.exists_on_schedule
  obtain ⟨_, hfresh, -, -⟩ := hq.clear.exists_on_schedule
  have hsettled : staleMarks s' = [] := by
    have hmarked := hq.schedule_eq
    rw [hrecords, if_pos rfl, ← htimetable] at hmarked
    exact ContractRecords.staleMarks_eq_nil_of_withMarks hmarked
  refine ⟨_, q, hsync, ContractRecords.length_staleMarks h.schedule_eq, hrecords,
    ⟨s', ?_, ?_, horder, htimetable⟩, q', on_syncCritical_of_settled hschedule hsettled, hstore⟩
  · rw [hschedule]
  · rw [hfresh]

end Planner

/-! ## Marks of the fork -/

-- The settings are a variable here, since the evaluation should not come to the default weights.
/-- The longer way through the fork is critical. -/
theorem exists_schedule_forkStore (settings : Settings) : ∃ s,
    ((Planner.schedule 1).on ⟨settings, forkStore, { enabled := true }⟩).1 = .ok s ∧
      ((forkStore.records 1).milestones.toList.countP fun m =>
        m.criticalPath != s.timetable.isCritical m.id) = 2 ∧
      ((forkStore.records 1).withMarks s.timetable).milestones.toList.map Milestone.criticalPath =
        [true, false, true, false] := ⟨_, by cbv, by cbv, by cbv⟩

/-- Two marks are set, and none the second time. -/
theorem syncCritical_withMarks_fork : ∃ s,
    ((Planner.schedule 1).on { Planner.withDefaults forkStore with memory :=
      (Planner.withDefaults forkStore).memory.clear }).1 = .ok s ∧
    (Planner.withDefaults forkStore).memory.get? 1 = none ∧
    ∃ q, (Planner.syncCritical 1).on (.withDefaults forkStore) = (.ok 2, q) ∧
      (q.store.records 1).milestones.toList.map Milestone.criticalPath =
        [true, false, true, false] ∧
      ∃ q', (Planner.syncCritical 1).on q = (.ok 0, q') ∧ q'.store = q.store := by
  obtain ⟨s, hs, hcount, hmarks⟩ := exists_schedule_forkStore {}
  obtain ⟨n, q, hsync, hn, hrecords, -, hagain⟩ :=
    Planner.syncCritical_withMarks (p := .withDefaults forkStore) hs (.inl rfl)
  cases hn.trans hcount
  exact ⟨s, hs, rfl, q, hsync, (hrecords 1).symm ▸ hmarks, hagain⟩

end Milestones
