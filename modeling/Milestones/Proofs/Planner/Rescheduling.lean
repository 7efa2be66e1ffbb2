import Milestones.Proofs.Planner.Run
import Milestones.Proofs.Schedule.Outline

/-!
# Batches that leave the schedule alone

A change says of itself whether it may alter the schedule.  One that says no changes the standing of
milestones, or edits of them what no schedule reads.  So it leaves the dependencies and the outline
of every milestone as they are, and everything that a schedule is made of can be read off these.

A batch reports whether any of its changes says yes.  If it reports no, the schedule after it is the
one before it.  That is why marks need not be set again then.

## Main definitions

* `ContractRecords.outline`: what a schedule reads of the records of a contract.
* `ContractRecords.SameSchedule`: records with the same links, order of work and timetable.

## Main statements

* `Draft.Steps.of_not_touches`: what is left alone by changes that do not touch the schedule.
* `ContractRecords.SameSchedule.of_outline`: records with the same outline.
* `Planner.scheduleChanged_eq_touchesSchedule`: what a batch reports.
-/

namespace Milestones

open Outcome

/-! ## Changes that do not touch the schedule -/

namespace Milestone

theorem SameButStanding.outline_eq {m m' : Milestone} (h : m.SameButStanding m') :
    m'.outline = m.outline := by
  obtain ⟨_, _, _, _, _, rfl⟩ := h
  rfl

theorem SameButStanding.criticalPath_eq {m m' : Milestone} (h : m.SameButStanding m') :
    m'.criticalPath = m.criticalPath := by
  obtain ⟨_, _, _, _, _, rfl⟩ := h
  rfl

/-- An edit that does not touch the schedule sets neither sequence number nor planned duration nor
planned start. -/
theorem outline_apply {e : MilestoneEdit} (he : e.touchesSchedule = false) (m : Milestone) :
    (e.apply m).outline = m.outline := by
  simp only [MilestoneEdit.touchesSchedule, Bool.or_eq_false_iff, Option.isSome_eq_false_iff,
    Option.isNone_iff_eq_none] at he
  obtain ⟨⟨hsequence, hduration⟩, hstart⟩ := he
  simp [outline, MilestoneEdit.apply, hsequence, hduration, hstart]

end Milestone

/-- A part of a change touches the schedule if the change does. -/
theorem Mutation.touchesSchedule_of_mem_parts {x y : Mutation} (hy : y ∈ x.parts) :
    y.touchesSchedule = x.touchesSchedule := by
  cases x with
  | setStatus ids status =>
    obtain ⟨id, -, rfl⟩ := List.mem_map.1 hy
    rfl
  | setProgress updates =>
    obtain ⟨u, -, rfl⟩ := List.mem_map.1 hy
    rfl
  | _ => rw [List.mem_singleton.1 hy]

theorem Batch.touchesSchedule_of_mem_parts {b : Batch} (hb : b.touchesSchedule = false)
    {y : Mutation} (hy : y ∈ b.parts) : y.touchesSchedule = false := by
  obtain ⟨x, hx, hy⟩ := List.mem_flatMap.1 hy
  rw [Mutation.touchesSchedule_of_mem_parts hy]
  exact Bool.eq_false_iff.2 (List.any_eq_false.1 hb x hx)

namespace Draft

variable {now : Instant} {d d' : Draft} {ws : List Write}

/-- What neither the standing of a milestone nor an edit beside the schedule changes, a step that
does not touch the schedule leaves alone in every milestone. -/
theorem Step.of_not_touches {β : Type} {f : Milestone → β} {x : Mutation} (h : Step now d x ws d')
    (hstanding : ∀ {m m'}, m.SameButStanding m' → f m' = f m)
    (hedit : ∀ {e : MilestoneEdit}, e.touchesSchedule = false → ∀ m, f (e.apply m) = f m)
    (hx : x.touchesSchedule = false) :
    d'.dependencies = d.dependencies ∧
      ∀ id, (d'.milestones.get? id).map f = (d.milestones.get? id).map f := by
  have hput : ∀ {m m' : Milestone}, d.find m.id = .ok m → m'.id = m.id → f m' = f m →
      (d.put m').dependencies = d.dependencies ∧
        ∀ id, ((d.put m').milestones.get? id).map f = (d.milestones.get? id).map f := by
    intro m m' hfind hid hsame
    refine ⟨rfl, fun id => ?_⟩
    rw [put, Table.get?_insert, show recordId m' = m.id from hid]
    split
    · rename_i heq
      rw [← heq, get?_of_find hfind, Option.map_some, Option.map_some, hsame]
    · rfl
  cases h with
  | keep => exact ⟨rfl, fun _ => rfl⟩
  | move hfind _ hmove =>
    have hsame := Milestone.sameButStanding_of_moveTo hmove
    exact hput hfind hsame.id_eq (hstanding hsame)
  | record hfind hrecord =>
    have hsame := Milestone.sameButStanding_of_recordProgress hrecord
    exact hput hfind hsame.id_eq (hstanding hsame)
  | @edit m edit hfind => exact hput hfind (edit.id_apply m) (hedit hx m)
  | create => cases hx
  | delete => cases hx
  | join => cases hx
  | part => cases hx

/-- So do several steps. -/
theorem Steps.of_not_touches {β : Type} {f : Milestone → β} {xs : List Mutation}
    (h : Steps now d xs ws d') (hstanding : ∀ {m m'}, m.SameButStanding m' → f m' = f m)
    (hedit : ∀ {e : MilestoneEdit}, e.touchesSchedule = false → ∀ m, f (e.apply m) = f m)
    (hxs : ∀ x ∈ xs, x.touchesSchedule = false) :
    d'.dependencies = d.dependencies ∧
      ∀ id, (d'.milestones.get? id).map f = (d.milestones.get? id).map f := by
  induction h with
  | nil d => exact ⟨rfl, fun _ => rfl⟩
  | cons hstep _ ih =>
    obtain ⟨hdependencies, hmilestones⟩ :=
      hstep.of_not_touches hstanding hedit (hxs _ List.mem_cons_self)
    obtain ⟨hdependencies', hmilestones'⟩ := ih fun x hx => hxs x (List.mem_cons_of_mem _ hx)
    exact ⟨hdependencies'.trans hdependencies, fun id => (hmilestones' id).trans (hmilestones id)⟩

/-- The effect of a batch says whether one of its changes touches the schedule. -/
theorem reschedules_of_planFrom {index : Nat} {xs : List Mutation} {e : Effect}
    (h : planFrom now index d xs = .ok (d', e)) :
    e.reschedules = xs.any Mutation.touchesSchedule := by
  induction xs generalizing index d e with
  | nil =>
    cases h
    rfl
  | cons x rest ih =>
    obtain ⟨⟨d₁, e₁⟩, -, h⟩ := bind_eq_ok.1 h
    obtain ⟨⟨d₂, e₂⟩, h₂, h⟩ := bind_eq_ok.1 h
    cases h
    rw [List.any_cons, ← ih h₂]
    rfl

end Draft

/-! ## What a schedule reads of the records -/

namespace ContractRecords

/-- What a schedule reads of the records of a contract. -/
def outline (r : ContractRecords) : ContractRecords :=
  { r with
    milestones := r.milestones.map Milestone.outline Milestone.recordId_outline
    history := [] }

variable {r r' : ContractRecords}

theorem outline_eq (hcontract : r'.contractId = r.contractId)
    (hdependencies : r'.dependencies = r.dependencies)
    (hmilestones : ∀ id, (r'.milestones.get? id).map Milestone.outline =
      (r.milestones.get? id).map Milestone.outline) : r'.outline = r.outline := by
  have htable : r'.milestones.map Milestone.outline Milestone.recordId_outline =
      r.milestones.map Milestone.outline Milestone.recordId_outline :=
    Table.ext_get? fun id => by rw [Table.get?_map, Table.get?_map, hmilestones]
  rw [outline, outline, hcontract, hdependencies, htable]

theorem graph_outline (r : ContractRecords) : r.outline.graph = r.graph.map Graph.outline :=
  Graph.ofRecords_outline r.contractId r.milestones.toList r.dependencies.toList

theorem schedule_outline (r : ContractRecords) :
    r.outline.schedule = r.schedule.map Schedule.outline := by
  rw [schedule, schedule, graph_outline]
  cases r.graph with
  | error e => rfl
  | ok g => exact Schedule.compute_outline g

/-- A graph or a schedule is made of records, and wiping the records wipes what is made of them.
Then what can be read off afterwards is the same for records with one outline. -/
theorem map_congr_of_outline {ε γ β : Type} {make : ContractRecords → Except ε γ} {wipe : γ → γ}
    (hmake : ∀ r : ContractRecords, make r.outline = (make r).map wipe) {view : γ → β}
    (hview : ∀ a, view (wipe a) = view a) (h : r'.outline = r.outline) :
    (make r').map view = (make r).map view := by
  have houtline : ∀ r : ContractRecords, (make r).map view = (make r.outline).map view := by
    intro r
    rw [hmake]
    cases make r with
    | error e => rfl
    | ok a => exact congrArg Except.ok (hview a).symm
  rw [houtline, houtline r, h]

/-- Two records of a contract have the same dependencies and links, the same order of work or report
of cycles, and the same timetable with the same earliest planned start, or none for the same
reason. -/
structure SameSchedule (r r' : ContractRecords) : Prop where
  dependencies_eq : r'.dependencies = r.dependencies
  links_eq : r'.graph.map Graph.links = r.graph.map Graph.links
  workOrder_eq : r'.graph.map Graph.workOrder = r.graph.map Graph.workOrder
  timetable_eq : r'.schedule.map Schedule.timetable = r.schedule.map Schedule.timetable
  earliestPlannedStart_eq : r'.schedule.map Schedule.earliestPlannedStart =
    r.schedule.map Schedule.earliestPlannedStart

theorem SameSchedule.of_outline (h : r'.outline = r.outline) : r.SameSchedule r' where
  dependencies_eq := by
    have hdependencies := congrArg ContractRecords.dependencies h
    exact hdependencies
  links_eq := map_congr_of_outline graph_outline Graph.links_outline h
  workOrder_eq := map_congr_of_outline graph_outline Graph.workOrder_outline h
  timetable_eq := map_congr_of_outline schedule_outline (fun _ => rfl) h
  earliestPlannedStart_eq :=
    map_congr_of_outline schedule_outline Schedule.earliestPlannedStart_outline h

end ContractRecords

/-! ## Batches -/

namespace Planner

variable {p q : Planner} {b : Batch} {now : Instant} {d : Draft} {e : Effect}

/-- What neither the standing of a milestone nor an edit beside the schedule changes is the same
after a batch that does not touch the schedule. -/
theorem of_plan_of_not_touches {β : Type} {f : Milestone → β}
    (hplan : (p.store.draft b).plan b now = .ok (d, e)) (hreschedules : e.reschedules = false)
    {s : Store} (happly : p.store.apply b.contractId e.writes = .ok s)
    (hstanding : ∀ {m m'}, m.SameButStanding m' → f m' = f m)
    (hedit : ∀ {e : MilestoneEdit}, e.touchesSchedule = false → ∀ m, f (e.apply m) = f m) :
    (s.records b.contractId).dependencies = (p.store.records b.contractId).dependencies ∧
      ∀ id, ((s.records b.contractId).milestones.get? id).map f =
        ((p.store.records b.contractId).milestones.get? id).map f := by
  obtain ⟨r, hr, hrecords⟩ := Store.records_of_apply happly
  rw [hrecords, if_pos rfl]
  have hsteps := Draft.steps_of_plan hplan
  have htouches : b.touchesSchedule = false := by
    rw [Batch.touchesSchedule, ← Draft.reschedules_of_planFrom hplan, hreschedules]
  have hstart := p.store.records_draft b
  rw [← hstart] at hr
  cases hsteps.eq_of_applyAll hr
  exact hsteps.of_not_touches hstanding hedit fun _ hy =>
    Batch.touchesSchedule_of_mem_parts htouches hy

theorem outline_of_plan (hplan : (p.store.draft b).plan b now = .ok (d, e))
    (hreschedules : e.reschedules = false) {s : Store}
    (happly : p.store.apply b.contractId e.writes = .ok s) :
    (s.records b.contractId).outline = (p.store.records b.contractId).outline := by
  obtain ⟨hdependencies, hmilestones⟩ := of_plan_of_not_touches (f := Milestone.outline) hplan
    hreschedules happly (fun h => h.outline_eq) (fun he m => Milestone.outline_apply he m)
  refine ContractRecords.outline_eq ?_ hdependencies hmilestones
  rw [Store.contractId_records, Store.contractId_records]

/-- A batch that is accepted reports that it changed the schedule exactly if one of its changes
touches the schedule.  If it reports that it did not, the contract has the links, the order of work
and the timetable that it had before, or none of them for the same reason. -/
theorem scheduleChanged_eq_touchesSchedule {o : BatchOutcome}
    (h : ((applyBatch b now).on p).1 = .ok o) :
    o.scheduleChanged = b.touchesSchedule ∧
      (o.scheduleChanged = false → (p.store.records b.contractId).SameSchedule
        (((applyBatch b now).on p).2.store.records b.contractId)) := by
  have hends := batchEnds p b now
  rw [h] at hends
  generalize ((applyBatch b now).on p).2 = q at hends ⊢
  have hreport : ∀ {d e}, (p.store.draft b).plan b now = .ok (d, e) →
      (BatchOutcome.ofEffect e).scheduleChanged = b.touchesSchedule :=
    fun hplan => Draft.reschedules_of_planFrom hplan
  cases hends with
  | idle _ hplan => exact ⟨hreport hplan, fun _ => .of_outline rfl⟩
  | committed _ hplan happly =>
    exact ⟨hreport hplan, fun hunchanged => .of_outline (outline_of_plan hplan hunchanged happly)⟩
  | marked _ hplan _ hmarks =>
    refine ⟨hreport hplan, fun hunchanged => ?_⟩
    -- Marks are only set after a batch that reports a change.
    have hchanged := (Bool.and_eq_true_iff.1 hmarks).2
    cases hunchanged.symm.trans hchanged

end Planner

/-- A milestone is started and gets another title. -/
def retitling : Batch :=
  { contractId := 1
    mutations := [.setStatus [2] .inProgress, .updateMilestone 2 { title := some "second" }] }

/-- On the fork this does not change the schedule. -/
theorem scheduleChanged_eq_touchesSchedule_retitling :
    ∃ o q, (Planner.applyBatch retitling .epoch).on (.withDefaults forkStore) = (.ok o, q) ∧
      o = ⟨2, 2, 0, false⟩ ∧ o.scheduleChanged = retitling.touchesSchedule ∧
        (forkStore.records 1).SameSchedule (q.store.records 1) := by
  have haccepted : ((Planner.applyBatch retitling .epoch).on (.withDefaults forkStore)).1 =
      .ok ⟨2, 2, 0, false⟩ := rfl
  obtain ⟨hreport, hsame⟩ := Planner.scheduleChanged_eq_touchesSchedule haccepted
  exact ⟨_, _, rfl, rfl, hreport, hsame rfl⟩

end Milestones
