import Milestones.Proofs.Change.Planning
import Milestones.Proofs.Graph.Order
import Milestones.Proofs.Store

/-!
# What is planned is what is stored

A batch is carried out twice: on a draft, to see whether it is acceptable, and on the stored
records, as a transaction of the planned writes.  The writes make their own checks and have their
own idea of what to change.  Still they are never refused, and they lead from the records of the
draft before to those of the draft after, one step at a time.  What the draft does not hold is the
journal; it grows by the readings of the batch.

## Main definitions

* `Draft.records`: the records that a draft stands for.
* `Store.NamesContracts`: stored milestones name the contract they are stored under.

## Main statements

* `Draft.Step.applyAll_eq`, `Draft.Steps.applyAll_eq`: the writes of a step, and of steps in a
  row.
* `Draft.Steps.eq_of_applyAll`, `Draft.eq_of_applyAll_of_plan`: they lead nowhere else, whichever
  contract the milestones name.
* `Draft.exists_apply_of_plan`: an accepted batch is stored as it was planned.
-/

namespace Milestones

open ContractRecords

namespace Draft

/-- The records that a draft stands for, with a journal. -/
def records (d : Draft) (history : List ProgressReading) : ContractRecords :=
  ⟨d.contractId, d.milestones, d.dependencies, history⟩

theorem contains_of_find {d : Draft} {id : MilestoneId} {m : Milestone}
    (h : d.find id = .ok m) : d.milestones.contains m.id = true :=
  Table.contains_iff_get?.2 ⟨m, get?_of_find h⟩

/-! ## One step -/

section

variable {now : Instant} {d d' : Draft} {x : Mutation} {ws : List Write}

/-- Replacing a milestone of the draft, in the records. -/
theorem apply_replaceMilestone_records (history : List ProgressReading) {id : MilestoneId}
    {m m' : Milestone} (hfind : d.find id = .ok m) (hid : m'.id = m.id)
    (hcontract : m'.contractId = d.contractId) :
    (d.records history).apply (.replaceMilestone m') = .ok ((d.put m').records history) := by
  refine apply_replaceMilestone (r := d.records history) hcontract ?_
  rw [hid]
  exact contains_of_find hfind

/-- Entering a reading that a milestone of the draft has taken already, in the records. -/
theorem apply_setProgress_records (now : Instant) {m : Milestone}
    (hget : d.milestones.get? m.id = some m) (history : List ProgressReading) :
    (d.records history).apply (.setProgress ⟨m.id, m.percentageComplete⟩ now) =
      .ok (d.records (history ++ [⟨m.id, m.percentageComplete, now⟩])) := by
  have hput : d.milestones.insert m = d.milestones := Table.insert_of_get? hget
  simp [apply, changeMilestone, records, hget, hput, bind, Except.bind]

/-- Deleting the dependencies at a milestone, in the records. -/
theorem applyAll_incident_records (id : MilestoneId) (history : List ProgressReading) :
    (d.records history).applyAll ((d.incident id).map .deleteDependency) =
      .ok ({ d with dependencies := d.dependencies.filter fun e => !e.touches id }.records
        history) := by
  have hsub : ∀ e ∈ d.incident id, d.dependencies.contains e = true := by
    intro e he
    obtain ⟨x, hx, rfl⟩ := List.mem_map.1 he
    exact Table.contains_of_mem (List.mem_filter.1 hx).1
  have hnodup : (d.incident id).Nodup :=
    d.dependencies.nodup_ids.sublist (List.filter_sublist.map Dependency.id)
  rw [applyAll_deleteDependency (r := d.records history) hnodup hsub]
  exact congrArg (fun es => Except.ok (ContractRecords.mk _ _ es _))
    (Table.foldl_erase_filter d.dependencies _)

/-- The writes of a step lead from the records of the draft before to those of the draft after, if
they replace milestones by such as name the contract. -/
theorem Step.applyAll_of_contractId (h : Step now d x ws d') (history : List ProgressReading)
    (hws : ∀ m, .replaceMilestone m ∈ ws → m.contractId = d.contractId) :
    (d.records history).applyAll ws = .ok (d'.records (history ++ x.readings now)) := by
  cases h with
  | keep => simp [Mutation.readings]
  | move hfind _ hmove =>
    have hsame := Milestone.sameButStanding_of_moveTo hmove
    rw [applyAll_of_apply (apply_replaceMilestone_records history hfind hsame.id_eq
      (hws _ List.mem_cons_self))]
    simp [Mutation.readings]
  | @record m m' value hfind hrecord =>
    have hsame := Milestone.sameButStanding_of_recordProgress hrecord
    have hvalue := Milestone.percentageComplete_of_recordProgress hrecord
    -- The milestone is replaced first, so that the second write finds the value in place.
    have hget : (d.put m').milestones.get? m'.id = some m' := by
      simp [put, recordId]
    have hentry := apply_setProgress_records now hget history
    rw [hsame.id_eq, hvalue] at hentry
    rw [applyAll_of_apply (apply_replaceMilestone_records history hfind hsame.id_eq
      (hws _ List.mem_cons_self)), applyAll_of_apply hentry]
    rfl
  | create hcontract hnew =>
    simp [applyAll_cons, apply, records, hcontract, hnew, put, Mutation.readings, bind, Except.bind]
  | @edit m edit hfind =>
    rw [applyAll_of_apply (apply_replaceMilestone_records history hfind (edit.id_apply m)
      (hws _ List.mem_cons_self))]
    simp [Mutation.readings]
  | delete hfind =>
    rw [applyAll_append, applyAll_incident_records]
    simp [applyAll_cons, apply, records, contains_of_find hfind, Mutation.readings, bind,
      Except.bind]
  | join hadmits =>
    simp [applyAll_cons, apply, records, hadmits.new_id, Mutation.readings, bind, Except.bind]
  | part hcontains =>
    simp [applyAll_cons, apply, records, hcontains, Mutation.readings, bind, Except.bind]

/-- A milestone is replaced by one that names the same contract. -/
theorem Step.exists_replaced (h : Step now d x ws d') {m : Milestone}
    (hm : .replaceMilestone m ∈ ws) : ∃ old ∈ d.milestones.toList, m.contractId = old.contractId := by
  cases h with
  | move hfind _ hmove =>
    cases List.mem_singleton.1 hm
    exact ⟨_, Table.mem_of_get? (get?_of_find hfind),
      (Milestone.sameButStanding_of_moveTo hmove).contractId_eq⟩
  | record hfind hrecord =>
    obtain rfl : m = _ := by simpa using hm
    exact ⟨_, Table.mem_of_get? (get?_of_find hfind),
      (Milestone.sameButStanding_of_recordProgress hrecord).contractId_eq⟩
  | @edit old edit hfind =>
    cases List.mem_singleton.1 hm
    exact ⟨old, Table.mem_of_get? (get?_of_find hfind), edit.contractId_apply old⟩
  | _ => simp at hm

/-- The writes of a step lead from the records of the draft before to those of the draft
after. -/
theorem Step.applyAll_eq (h : Step now d x ws d') {history : List ProgressReading}
    (hd : (d.records history).NamesContract) :
    (d.records history).applyAll ws = .ok (d'.records (history ++ x.readings now)) := by
  refine h.applyAll_of_contractId history fun m hm => ?_
  obtain ⟨old, hold, hsame⟩ := h.exists_replaced hm
  rw [hsame]
  exact hd old hold

/-- Whichever contract the milestones name, the writes of a step lead nowhere else if they are not
refused. -/
theorem Step.eq_of_applyAll (h : Step now d x ws d') {history : List ProgressReading}
    {r : ContractRecords} (hr : (d.records history).applyAll ws = .ok r) :
    r = d'.records (history ++ x.readings now) := by
  have hwrites := h.applyAll_of_contractId history fun m hm => contractId_of_replaceMilestone hr hm
  rw [hr] at hwrites
  exact Except.ok.inj hwrites

end

/-! ## A batch -/

/-- The writes of steps in a row lead from the records of the first draft to those of the
last. -/
theorem Steps.applyAll_eq {now : Instant} {d d' : Draft} {xs : List Mutation} {ws : List Write}
    (h : Steps now d xs ws d') {history : List ProgressReading}
    (hd : (d.records history).NamesContract) :
    (d.records history).applyAll ws =
      .ok (d'.records (history ++ xs.flatMap (Mutation.readings now))) := by
  induction h generalizing history with
  | nil d => simp
  | cons hstep _ ih =>
    have hfirst := hstep.applyAll_eq hd
    rw [applyAll_append, hfirst]
    refine (ih (hd.applyAll hfirst)).trans ?_
    rw [List.flatMap_cons, List.append_assoc]

/-- The writes of steps in a row lead nowhere else than the steps do, if they are not refused. -/
theorem Steps.eq_of_applyAll {now : Instant} {d d' : Draft} {xs : List Mutation} {ws : List Write}
    (h : Steps now d xs ws d') {history : List ProgressReading} {r : ContractRecords}
    (hr : (d.records history).applyAll ws = .ok r) :
    r = d'.records (history ++ xs.flatMap (Mutation.readings now)) := by
  induction h generalizing history with
  | nil d =>
    cases hr
    simp
  | cons hstep _ ih =>
    rw [applyAll_append, Outcome.bind_eq_ok] at hr
    obtain ⟨r₁, h₁, hr⟩ := hr
    cases hstep.eq_of_applyAll h₁
    rw [ih hr, List.flatMap_cons, List.append_assoc]

/-- Neither do the writes of an accepted batch. -/
theorem eq_of_applyAll_of_plan {now : Instant} {d d' : Draft} {b : Batch} {e : Effect}
    (h : d.plan b now = .ok (d', e)) {history : List ProgressReading} {r : ContractRecords}
    (hr : (d.records history).applyAll e.writes = .ok r) :
    r = d'.records (history ++ b.readings now) := by
  rw [(steps_of_plan h).eq_of_applyAll hr, b.flatMap_readings_parts]

end Draft

/-- Stored milestones name the contract they are stored under. -/
def Store.NamesContracts (s : Store) : Prop :=
  ∀ c, ∀ m ∈ (s.records c).milestones.toList, m.contractId = c

theorem Store.NamesContracts.namesContract {s : Store} (h : s.NamesContracts) (c : ContractId) :
    (s.records c).NamesContract := by
  intro m hm
  rw [contractId_records]
  exact h c m hm

namespace Draft

/-- The draft of stored records stands for them, whatever is known of other contracts. -/
theorem records_ofRecords (r : ContractRecords) (elsewhere : List (MilestoneId × ContractId)) :
    Draft.records
      { ofRecords r.contractId r.milestones.toList r.dependencies.toList with
        elsewhere := elsewhere } r.history = r := by
  rw [records, ofRecords, Table.ofList_toList, Table.ofList_toList]

/-- The writes of a batch that is accepted on the draft of a contract are a transaction that
succeeds.  Afterwards the contract holds the milestones and dependencies of the draft at the end
of planning, and its journal has grown by the readings of the batch, in their order. -/
theorem exists_apply_of_plan {s : Store} (hs : s.NamesContracts) {c : ContractId}
    {milestones : List Milestone} {dependencies : List Dependency}
    (hmilestones : s.loadMilestones c = .ok milestones)
    (hdependencies : s.loadDependencies c = .ok dependencies)
    (elsewhere : List (MilestoneId × ContractId)) {b : Batch} {now : Instant} {d : Draft}
    {e : Effect}
    (hplan : plan { ofRecords c milestones dependencies with elsewhere := elsewhere } b now =
      .ok (d, e)) :
    ∃ s', s.apply c e.writes = .ok s' ∧
      (s'.records c).milestones = d.milestones ∧
      (s'.records c).dependencies = d.dependencies ∧
      (s'.records c).history = (s.records c).history ++ b.readings now := by
  obtain ⟨honline, rfl⟩ := Store.loadMilestones_eq_ok.1 hmilestones
  obtain ⟨-, rfl⟩ := Store.loadDependencies_eq_ok.1 hdependencies
  have hsteps := steps_of_plan hplan
  have hstart := records_ofRecords (s.records c) elsewhere
  rw [Store.contractId_records] at hstart
  have hwrites := hsteps.applyAll_eq (hstart.symm ▸ hs.namesContract c)
  rw [hstart, b.flatMap_readings_parts] at hwrites
  have hcontract : d.contractId = c :=
    hsteps.invariant (P := fun d => d.contractId = c) (fun h hd => h.contractId_eq.trans hd) rfl
  refine ⟨_, Store.apply_eq_ok.2 ⟨honline, _, hwrites, rfl⟩, ?_⟩
  rw [Store.records_insert, if_pos (show (d.records _).contractId = c from hcontract)]
  exact ⟨rfl, rfl, rfl⟩

end Draft

/-! ## The fork in a store -/

/-- A store that holds the fork. -/
def forkStore : Store :=
  .ofSnapshot
    { contractId := 1
      milestones := Graph.forkMilestones
      dependencies := Graph.forkDependencies }

theorem namesContracts_forkStore : forkStore.NamesContracts := by
  intro c
  rw [forkStore, Store.records_ofSnapshot]
  split
  · rename_i hc
    cases hc
    decide
  · exact fun _ hm => absurd hm List.not_mem_nil

/-- A milestone goes together with its dependencies, comes back without them, and is completed in
two readings. -/
def forkBatch : Batch :=
  { contractId := 1
    mutations :=
      [.deleteMilestone 3, .createMilestone { id := 3, contractId := 1, title := "again" },
        .setProgress [⟨3, 40⟩, ⟨3, 100⟩]] }

/-- In the store, only the dependency at other milestones is left, and the journal has both
readings. -/
theorem exists_apply_forkBatch : forkStore.NamesContracts ∧
    ∃ s', (∃ d e, Draft.plan (.ofRecords 1 Graph.forkMilestones Graph.forkDependencies) forkBatch
        .epoch = .ok (d, e) ∧ forkStore.apply 1 e.writes = .ok s') ∧
      (s'.records 1).dependencies.toList = [⟨3, 4, 2, .parallel⟩] ∧
      (s'.records 1).history = [⟨3, 40, .epoch⟩, ⟨3, 100, .epoch⟩] := by
  have hload : forkStore.loadMilestones 1 = .ok Graph.forkMilestones := by decide
  have hload' : forkStore.loadDependencies 1 = .ok Graph.forkDependencies := by decide
  obtain ⟨⟨d, e⟩, hplan, hdependencies⟩ : ∃ r, Draft.plan
      (.ofRecords 1 Graph.forkMilestones Graph.forkDependencies) forkBatch .epoch = .ok r ∧
        r.1.dependencies.toList = [⟨3, 4, 2, .parallel⟩] := ⟨_, rfl, rfl⟩
  obtain ⟨s', hs', -, hdraft, hhistory⟩ :=
    Draft.exists_apply_of_plan namesContracts_forkStore hload hload' [] hplan
  refine ⟨namesContracts_forkStore, s', ⟨d, e, hplan, hs'⟩, ?_, hhistory⟩
  rw [hdraft]
  exact hdependencies

end Milestones
