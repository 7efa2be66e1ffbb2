import Milestones.Proofs.Change.Frame
import Milestones.Proofs.Planner.Integrity

/-!
# How far a batch reaches

A batch that is refused leaves the store as it was.  A batch that takes effect reaches one contract,
and there the milestones that its changes are about and the dependencies that they take away.  If
the critical marks are set after it, milestones anywhere in the contract may get another mark, and
nothing else of them changes: the marks are set from the records that the batch has just left,
because nothing is remembered of them.

## Main definitions

* `Milestone.unmarked`, `ContractRecords.SameButMarks`: equal apart from critical marks.
* `Batch.Spares`: what a batch leaves alone.

## Main statements

* `Planner.SyncEnds.sameButMarks`: setting marks changes marks.
* `Planner.applyBatch_spares`: how far a batch reaches, whatever the planner remembers.
-/

namespace Milestones

/-! ## Critical marks -/

/-- A milestone apart from its critical mark. -/
def Milestone.unmarked (m : Milestone) : Milestone := { m with criticalPath := false }

/-- Two milestones that are equal apart from their marks. -/
theorem Milestone.eq_of_unmarked {m m' : Milestone} (h : m'.unmarked = m.unmarked) :
    m' = { m with criticalPath := m'.criticalPath } := by
  cases m
  cases m'
  cases h
  rfl

/-- Two records of a contract are equal apart from critical marks. -/
structure ContractRecords.SameButMarks (r r' : ContractRecords) : Prop where
  milestone_eq : ∀ id, (r'.milestones.get? id).map Milestone.unmarked =
    (r.milestones.get? id).map Milestone.unmarked
  dependencies_eq : r'.dependencies = r.dependencies
  history_eq : r'.history = r.history

namespace ContractRecords.SameButMarks

variable {r r' r'' : ContractRecords}

theorem refl (r : ContractRecords) : r.SameButMarks r := ⟨fun _ => rfl, rfl, rfl⟩

/-- Another mark for a milestone of the records. -/
theorem mark (h : r.SameButMarks r') {m m' : Milestone} (hm : r.milestones.get? m.id = some m)
    (hsame : m'.unmarked = m.unmarked) :
    r.SameButMarks { r' with milestones := r'.milestones.insert m' } := by
  refine ⟨fun id => ?_, h.dependencies_eq, h.history_eq⟩
  have hid : m'.unmarked.id = m.unmarked.id := by rw [hsame]
  rw [Table.get?_insert, show recordId m' = m.id from hid]
  split
  · rename_i heq
    rw [← heq, hm, Option.map_some, Option.map_some, hsame]
  · exact h.milestone_eq id

/-- The writes of a schedule of the records change marks. -/
theorem of_applyAll_markWrites {s : Schedule} (hschedule : r.schedule = .ok s)
    (happly : r.applyAll (Planner.markWrites s) = .ok r') : r.SameButMarks r' := by
  refine applyAll_replaceMilestone_invariant (fun m hm x _ _ hx => ?_) (refl r) happly
  obtain ⟨y, hy, rfl⟩ := List.mem_map.1 hm
  have hmem := (mem_milestones_iff_of_schedule hschedule).1 (List.mem_filter.1 hy).1
  exact hx.mark (Table.mem_toList_iff_get?.1 hmem) rfl

end ContractRecords.SameButMarks

/-! ## What a batch leaves alone -/

/-- What a batch leaves alone between two states of the store: other contracts, milestones that no
change is about, apart from their marks, and dependencies that no change takes away. -/
structure Batch.Spares (b : Batch) (s s' : Store) : Prop where
  records_eq : ∀ c, c ≠ b.contractId → s'.records c = s.records c
  milestone_eq : ∀ id, (∀ x ∈ b.mutations, id ∉ x.subjects) →
    ((s'.records b.contractId).milestones.get? id).map Milestone.unmarked =
      ((s.records b.contractId).milestones.get? id).map Milestone.unmarked
  dependency_mem : ∀ e ∈ (s.records b.contractId).dependencies.toList,
    (∀ x ∈ b.mutations, ¬x.Drops e) → e ∈ (s'.records b.contractId).dependencies.toList

namespace Batch.Spares

variable {b : Batch} {s s' s'' : Store}

theorem refl (b : Batch) (s : Store) : b.Spares s s := ⟨fun _ _ => rfl, fun _ _ => rfl, fun _ he _ => he⟩

/-- The writes of an accepted batch. -/
theorem of_plan {now : Instant} {d : Draft} {e : Effect}
    (hplan : (s.draft b).plan b now = .ok (d, e)) (happly : s.apply b.contractId e.writes = .ok s') :
    b.Spares s s' := by
  have hsteps := Draft.steps_of_plan hplan
  obtain ⟨r, hr, hrecords⟩ := Store.records_of_apply happly
  have hown : s'.records b.contractId = r := by rw [hrecords, if_pos rfl]
  refine ⟨fun c hc => ?_, fun id hid => ?_, fun x hx hkept => ?_⟩
  · rw [hrecords, if_neg hc.symm]
  · rw [hown, ContractRecords.get?_milestones_of_applyAll hr fun w hw hmem => ?_]
    obtain ⟨y, hy, hyid⟩ := hsteps.exists_mem_subjects hw hmem
    obtain ⟨x, hx, hpart⟩ := List.mem_flatMap.1 hy
    exact hid x hx (Mutation.mem_subjects_of_parts hpart hyid)
  · have hget : (s.records b.contractId).dependencies.get? x.id = some x :=
      Table.mem_toList_iff_get?.1 hx
    rw [hown]
    refine Table.mem_of_get? (ContractRecords.get?_dependencies_of_applyAll hr hget ?_)
    refine hsteps.deleteDependency_notMem hget fun y hy hdrops => ?_
    obtain ⟨x, hx, hpart⟩ := List.mem_flatMap.1 hy
    exact hkept x hx (Mutation.drops_of_parts hpart hdrops)

/-- Marks may be set after a batch. -/
theorem marked (h : b.Spares s s')
    (hrecords : ∀ c, c ≠ b.contractId → s''.records c = s'.records c)
    (hmarks : (s'.records b.contractId).SameButMarks (s''.records b.contractId)) :
    b.Spares s s'' where
  records_eq c hc := (hrecords c hc).trans (h.records_eq c hc)
  milestone_eq id hid := (hmarks.milestone_eq id).trans (h.milestone_eq id hid)
  dependency_mem e he hkept := by
    rw [hmarks.dependencies_eq]
    exact h.dependency_mem e he hkept

end Batch.Spares

namespace Planner

variable {p q : Planner}

/-- Setting the marks of a contract reaches nothing else, if what is remembered of the contract is
the schedule of its records. -/
theorem SyncEnds.sameButMarks_of_remembered {c : ContractId} {result : Outcome PlannerError Nat}
    (h : SyncEnds p c result q)
    (hmemory : ∀ s, p.memory.get? c = some s → (p.store.records c).schedule = .ok s) :
    (∀ c', c' ≠ c → q.store.records c' = p.store.records c') ∧
      (p.store.records c).SameButMarks (q.store.records c) := by
  have hsame : ∀ {result' : Outcome PlannerError Schedule} {q' : Planner},
      ScheduleEnds p c result' q' →
      (∀ c', c' ≠ c → q'.store.records c' = p.store.records c') ∧
        (p.store.records c).SameButMarks (q'.store.records c) := by
    intro _ _ h
    rw [h.store_eq]
    exact ⟨fun _ _ => rfl, .refl _⟩
  cases h with
  | failed h => exact hsame h
  | settled h => exact hsame h
  | refused h => exact hsame h
  | @marked s _ s' h happly =>
    have hschedule : (p.store.records c).schedule = .ok s := by
      cases h with
      | remembered hs => exact hmemory s hs
      | computed _ _ hs => exact hs
    rw [h.store_eq] at happly
    obtain ⟨r, hr, hrecords⟩ := Store.records_of_apply happly
    refine ⟨fun c' hc' => ?_, ?_⟩
    · rw [store_stored, hrecords, if_neg hc'.symm]
    · rw [store_stored, hrecords, if_pos rfl]
      exact .of_applyAll_markWrites hschedule hr

/-- Where nothing is remembered of a contract, setting its marks reaches nothing else. -/
theorem SyncEnds.sameButMarks {c : ContractId} {result : Outcome PlannerError Nat}
    (h : SyncEnds p c result q) (hnone : p.memory.get? c = none) :
    (∀ c', c' ≠ c → q.store.records c' = p.store.records c') ∧
      (p.store.records c).SameButMarks (q.store.records c) :=
  h.sameButMarks_of_remembered fun _ hs => nomatch hnone.symm.trans hs

/-- A batch that is refused leaves the store as it is.  Otherwise, even if the marks could not be set
in the end, it reaches only what its changes are about and the marks in its contract. -/
theorem applyBatch_spares (p : Planner) (b : Batch) (now : Instant) :
    (∀ e, ((applyBatch b now).on p).1 = .error (.refused e) →
        ((applyBatch b now).on p).2.store = p.store) ∧
      ((∀ e, ((applyBatch b now).on p).1 ≠ .error (.refused e)) →
        b.Spares p.store ((applyBatch b now).on p).2.store) := by
  have hends := batchEnds p b now
  generalize ((applyBatch b now).on p).1 = result at hends ⊢
  generalize ((applyBatch b now).on p).2 = q at hends ⊢
  have hsync : ∀ {s : Store} {result : Outcome PlannerError Nat} {q : Planner},
      SyncEnds (p.stored b.contractId s) b.contractId result q → b.Spares p.store s →
        b.Spares p.store q.store := by
    intro s _ _ h hspares
    have hnone : (p.stored b.contractId s).memory.get? b.contractId = none := by
      rw [memory_stored, Memory.get?_forget, if_pos rfl]
    obtain ⟨hrecords, hmarks⟩ := h.sameButMarks hnone
    exact hspares.marked hrecords hmarks
  cases hends with
  | offline => exact ⟨fun _ _ => rfl, fun h => absurd rfl (h _)⟩
  | rejected => exact ⟨fun _ _ => rfl, fun h => absurd rfl (h _)⟩
  | refused => exact ⟨fun _ _ => rfl, fun h => absurd rfl (h _)⟩
  | idle => exact ⟨fun _ he => (nomatch he), fun _ => .refl b p.store⟩
  | committed _ hplan happly => exact ⟨fun _ he => (nomatch he), fun _ => .of_plan hplan happly⟩
  | marked _ hplan happly _ h _ =>
    exact ⟨fun _ he => (nomatch he), fun _ => hsync h (.of_plan hplan happly)⟩
  | fault _ hplan happly _ h =>
    exact ⟨fun _ he => (nomatch he), fun _ => hsync h (.of_plan hplan happly)⟩

end Planner

/-- On the fork, a batch whose second change is rejected has not removed the dependency.  A batch
that is accepted keeps the milestones and the dependency at which none of its changes is. -/
theorem applyBatch_spares_fork :
    ((Planner.applyBatch ⟨1, [.removeDependency 3, .deleteMilestone 9]⟩ .epoch).on
        (.withDefaults forkStore)).2.store = forkStore ∧
      ∃ s, s = ((Planner.applyBatch forkBatch .epoch).on (.withDefaults forkStore)).2.store ∧
        forkBatch.Spares forkStore s ∧ ⟨3, 4, 2, .parallel⟩ ∈ (s.records 1).dependencies.toList := by
  have hrefused : ((Planner.applyBatch ⟨1, [.removeDependency 3, .deleteMilestone 9]⟩ .epoch).on
      (.withDefaults forkStore)).1 = .error (.refused (.rejected 1 (.milestoneNotFound 9))) := rfl
  have haccepted : ((Planner.applyBatch forkBatch .epoch).on (.withDefaults forkStore)).1 =
      .ok ⟨8, 4, 2, true⟩ := rfl
  have hleft := (Planner.applyBatch_spares (.withDefaults forkStore) _ _).1 _ hrefused
  have hspares := (Planner.applyBatch_spares (.withDefaults forkStore) forkBatch .epoch).2
    fun e => by simp [haccepted]
  exact ⟨hleft, _, rfl, hspares, hspares.dependency_mem _ (by decide) (by decide)⟩

end Milestones
