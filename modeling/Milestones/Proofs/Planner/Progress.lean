import Milestones.Proofs.Planner.Course

/-!
# Progress on record

After a milestone is created, its progress changes by readings alone, each of which is entered in
the journal too.  Moves, edits and critical marks write the record as a whole, but never with an
older progress, so the record and the journal do not part.

Readings are checked to be percentages, and edits limit the weight.  Creation checks neither, so
what is out of range on record was created so.

## Main definitions

* `IsPercentage`: finite and from 0 to 100.
* `Mutation.revives`: a change creates what another one deletes.

## Main statements

* `Planner.Truthful.inRange_afterAll`: where progress and weights out of range come from, and that
  no batch records them.
* `Planner.Truthful.reading_afterAll`: the journal grows at its end, and the progress on record is
  its last reading.
-/

namespace Milestones

open Outcome

/-- The number is finite and from 0 to 100. -/
def IsPercentage (x : Float) : Prop := x.isFinite = true ∧ 0 ≤ x ∧ x ≤ 100

instance (x : Float) : Decidable (IsPercentage x) := inferInstanceAs (Decidable (_ ∧ _ ∧ _))

theorem isPercentage_iff {x : Float} :
    IsPercentage x ↔ (x.isFinite && 0 ≤ x && x ≤ 100) = true := by
  simp [IsPercentage, and_assoc]

theorem limitScore_le (score : UInt8) : limitScore score ≤ 100 := by
  rw [limitScore]
  split
  · exact UInt8.le_refl 100
  · exact UInt8.not_lt.1 ‹_›

namespace Milestone

variable {m m' : Milestone} {now : Instant}

/-- A reading is a percentage. -/
theorem isPercentage_of_recordProgress {value : Float} (h : m.recordProgress value now = .ok m') :
    IsPercentage value :=
  isPercentage_iff.2 (recordProgress_eq_ok h).1

end Milestone

theorem MilestoneEdit.criticalityScore_apply (e : MilestoneEdit) (m : Milestone) :
    (e.apply m).criticalityScore ≤ 100 ∨ (e.apply m).criticalityScore = m.criticalityScore := by
  rw [apply]
  cases e.criticalityScore with
  | none => exact .inr rfl
  | some score => exact .inl (limitScore_le score)

/-! ## What a change does to progress and weight -/

namespace Dossier

/-- The progress on record. -/
def progress (d : Dossier) : Option Float := d.milestone.map Milestone.percentageComplete

namespace Change

variable {now : Instant} {id : MilestoneId} {x : Mutation} {d d' : Dossier}

/-- Progress comes with the milestone and with every reading, which is entered in the journal, and
goes with the milestone. -/
theorem progress_cases (h : Change now id x d d') :
    d'.progress = d.progress ∧ d'.readings = d.readings ∨
      (∃ value, IsPercentage value ∧ d'.progress = some value ∧
        d'.readings = d.readings ++ [⟨id, value, now⟩]) ∨
      (∃ m, x = .createMilestone m ∧ m.id = id ∧ d.progress = none ∧
        d'.progress = some m.percentageComplete ∧ d'.readings = d.readings) ∨
      x = .deleteMilestone id ∧ d'.progress = none ∧ d'.readings = d.readings := by
  cases h with
  | other => exact .inl ⟨rfl, rfl⟩
  | keep => exact .inl ⟨rfl, rfl⟩
  | move _ hmove =>
    exact .inl ⟨congrArg some (Milestone.percentageComplete_of_moveTo hmove), rfl⟩
  | record hrecord =>
    have hprogress := Milestone.percentageComplete_of_recordProgress hrecord
    exact .inr (.inl ⟨_, Milestone.isPercentage_of_recordProgress hrecord,
      congrArg some hprogress, rfl⟩)
  | create hid => exact .inr (.inr (.inl ⟨_, rfl, hid, rfl, rfl, rfl⟩))
  | edit => exact .inl ⟨rfl, rfl⟩
  | delete => exact .inr (.inr (.inr ⟨rfl, rfl, rfl⟩))

/-- Where the progress of a milestone comes from. -/
theorem percentageComplete_cases (h : Change now id x d d') {m' : Milestone}
    (hm' : d'.milestone = some m') :
    IsPercentage m'.percentageComplete ∨ d.progress = some m'.percentageComplete ∨
      ∃ m, x = .createMilestone m ∧ m.id = id ∧ m.percentageComplete = m'.percentageComplete := by
  have hprogress : d'.progress = some m'.percentageComplete := congrArg (Option.map _) hm'
  obtain ⟨hsame, -⟩ | ⟨value, hvalue, hsame, -⟩ | ⟨m, rfl, hid, -, hsame, -⟩ | ⟨-, hnone, -⟩ :=
    h.progress_cases
  · exact .inr (.inl (hsame.symm.trans hprogress))
  · cases hsame.symm.trans hprogress
    exact .inl hvalue
  · exact .inr (.inr ⟨m, rfl, hid, Option.some_inj.1 (hsame.symm.trans hprogress)⟩)
  · cases hnone.symm.trans hprogress

/-- Where the weight of a milestone comes from. -/
theorem criticalityScore_cases (h : Change now id x d d') {m' : Milestone}
    (hm' : d'.milestone = some m') :
    m'.criticalityScore ≤ 100 ∨
      d.milestone.map Milestone.criticalityScore = some m'.criticalityScore ∨
      ∃ m, x = .createMilestone m ∧ m.id = id ∧ m.criticalityScore = m'.criticalityScore := by
  cases h with
  | other => exact .inr (.inl (congrArg (Option.map _) hm'))
  | keep => exact .inr (.inl (congrArg (Option.map _) hm'))
  | move _ hmove =>
    cases hm'
    have hsame := (Milestone.sameButStanding_of_moveTo hmove).criticalityScore_eq
    exact .inr (.inl (congrArg some hsame.symm))
  | record hrecord =>
    cases hm'
    have hsame := (Milestone.sameButStanding_of_recordProgress hrecord).criticalityScore_eq
    exact .inr (.inl (congrArg some hsame.symm))
  | create hid =>
    cases hm'
    exact .inr (.inr ⟨_, rfl, hid, rfl⟩)
  | @edit m e =>
    cases hm'
    rcases e.criticalityScore_apply m with hle | hsame
    · exact .inl hle
    · exact .inr (.inl (congrArg some hsame.symm))
  | delete => cases hm'

end Change

/-- The progress on record is the last reading.  Once the milestone is gone, it is not created again
by the changes that are still to come. -/
def Current (id : MilestoneId) (d : Dossier) (rest : List Mutation) : Prop :=
  ∀ e, d.readings.getLast? = some e → d.progress = some e.percentageComplete ∨
    d.progress = none ∧ ∀ m, .createMilestone m ∈ rest → m.id ≠ id

end Dossier

namespace Mutation

/-- The change creates the milestone that the other one deletes. -/
def revives : Mutation → Mutation → Bool
  | createMilestone m, deleteMilestone id => m.id == id
  | _, _ => false

theorem revives_iff {x y : Mutation} :
    y.revives x = true ↔ ∃ m, y = .createMilestone m ∧ x = .deleteMilestone m.id := by
  rw [revives.eq_def]
  split
  · rename_i m id
    simp only [beq_iff_eq, createMilestone.injEq, deleteMilestone.injEq]
    exact ⟨fun h => ⟨m, rfl, h.symm⟩, fun ⟨_, hm, hid⟩ => hm ▸ hid.symm⟩
  · rename_i hne
    simp only [Bool.false_eq_true, false_iff]
    rintro ⟨m, rfl, rfl⟩
    exact hne m m.id rfl rfl

/-- No milestone that a change deletes is created again by a later one. -/
def NoneRevived (xs : List Mutation) : Prop := xs.Pairwise fun x y => y.revives x = false

instance (xs : List Mutation) : Decidable (NoneRevived xs) :=
  inferInstanceAs (Decidable (xs.Pairwise _))

/-- Creation and deletion are not taken apart. -/
theorem NoneRevived.parts {xs : List Mutation} (h : NoneRevived xs) :
    NoneRevived (xs.flatMap Mutation.parts) := by
  have hwhole : ∀ {a b x y : Mutation}, x ∈ a.parts → y ∈ b.parts → y.revives x = true →
      b.revives a = true := by
    intro a b x y hx hy hrevives
    obtain ⟨m, rfl, rfl⟩ := revives_iff.1 hrevives
    rwa [← eq_of_mem_parts hx nofun nofun, ← eq_of_mem_parts hy nofun nofun]
  refine List.pairwise_flatMap.2 ⟨fun a _ => ?_, h.imp fun hab x hx y hy => ?_⟩
  · refine List.pairwise_of_forall_mem_list fun x hx y hy => ?_
    rw [← Bool.not_eq_true]
    intro hrevives
    obtain ⟨m, rfl, hdelete⟩ := revives_iff.1 (hwhole hx hy hrevives)
    cases hdelete
  · rw [← Bool.not_eq_true] at hab ⊢
    exact fun hrevives => hab (hwhole hx hy hrevives)

end Mutation

/-- Nothing is asked of a milestone without readings. -/
theorem Dossier.Current.of_readings {id : MilestoneId} {d : Dossier} {rest : List Mutation}
    (h : d.readings = []) : d.Current id rest := by
  intro e he
  rw [h] at he
  cases he

/-- A change keeps progress and journal together if nothing after it creates again what it
deletes. -/
theorem Dossier.Current.change {now : Instant} {id : MilestoneId} {x : Mutation} {d d' : Dossier}
    {rest : List Mutation} (hd : d.Current id (x :: rest)) (h : Change now id x d d')
    (hrest : ∀ y ∈ rest, y.revives x = false) : d'.Current id rest := by
  intro e he
  obtain ⟨hprogress, hreadings⟩ | ⟨value, -, hprogress, hreadings⟩ |
    ⟨m, rfl, hid, hnone, -, hreadings⟩ | ⟨rfl, hprogress, -⟩ := h.progress_cases
  · rw [hreadings] at he
    rw [hprogress]
    exact (hd e he).imp_right fun hgone =>
      ⟨hgone.1, fun m hm => hgone.2 m (List.mem_cons_of_mem _ hm)⟩
  · rw [hreadings, List.getLast?_concat] at he
    cases he
    exact .inl hprogress
  · -- A milestone with readings that is not there is never created again.
    rw [hreadings] at he
    rcases hd e he with hsome | hgone
    · rw [hnone] at hsome
      cases hsome
    · exact absurd hid (hgone.2 m List.mem_cons_self)
  · refine .inr ⟨hprogress, fun m hm hid => ?_⟩
    have hrevives := hrest _ hm
    rw [Mutation.revives, hid, beq_self_eq_true] at hrevives
    cases hrevives

/-! ## What a course does to progress and weight -/

namespace ContractRecords.Course

variable {r r' : ContractRecords} {xs : List Mutation}

/-- Where a value is good that is written later than at creation, it ends up good or as created. -/
theorem good_or_created {α : Type} (f : Milestone → α) (Good : α → Prop)
    (hmark : ∀ (m : Milestone) critical, f { m with criticalPath := critical } = f m)
    (hchange : ∀ {now id x d d' m'}, Dossier.Change now id x d d' → d'.milestone = some m' →
      Good (f m') ∨ d.milestone.map f = some (f m') ∨
        ∃ m, x = .createMilestone m ∧ m.id = id ∧ f m = f m')
    (h : Course r xs r') (hr : ∀ m ∈ r.milestones.toList, Good (f m)) {m : Milestone}
    (hm : m ∈ r'.milestones.toList) :
    Good (f m) ∨ ∃ x, .createMilestone x ∈ xs ∧ x.id = m.id ∧ f x = f m := by
  refine h.dossier_invariant_of_mem m.id
    (P := fun d => ∀ m' ∈ d.milestone,
      Good (f m') ∨ ∃ x, .createMilestone x ∈ xs ∧ x.id = m.id ∧ f x = f m') ?_ ?_
    (fun m' hm' => .inl (hr m' (Table.mem_of_get? hm'))) m (milestone_dossier hm)
  · intro now x d d' hx h hd m' hm'
    rcases hchange h hm' with hgood | hkept | ⟨m₁, rfl, hid, hsame⟩
    · exact .inl hgood
    · obtain ⟨m₁, hm₁, hsame⟩ := Option.map_eq_some_iff.1 hkept
      rw [← hsame]
      exact hd m₁ hm₁
    · exact .inr ⟨m₁, hx, hid, hsame⟩
  · rintro m₁ critical rs hd _ ⟨⟩
    rw [hmark]
    exact hd m₁ rfl

theorem current (h : Course r xs r') (hxs : Mutation.NoneRevived xs) (id : MilestoneId)
    (hr : (r.dossier id).Current id xs) : (r'.dossier id).Current id [] := by
  have hend := h.dossier_invariant id
    (P := fun d rest => Mutation.NoneRevived rest ∧ d.Current id rest)
    (by
      rintro now x rest d d' h ⟨hrest, hd⟩
      obtain ⟨hx, hrest⟩ := List.pairwise_cons.1 hrest
      exact ⟨hrest, hd.change h hx⟩)
    (fun hP => hP) ⟨hxs, hr⟩
  exact hend.2

end ContractRecords.Course

/-! ## Batches and runs -/

namespace Draft

/-- Each change of steps in a row is one of the steps. -/
theorem Steps.exists_step {now : Instant} {d d' : Draft} {xs : List Mutation} {ws : List Write}
    (h : Steps now d xs ws d') {x : Mutation} (hx : x ∈ xs) :
    ∃ d₁ ws₁ d₂, Step now d₁ x ws₁ d₂ := by
  induction h with
  | nil => cases hx
  | cons hstep _ ih =>
    rcases List.mem_cons.1 hx with rfl | hx
    · exact ⟨_, _, _, hstep⟩
    · exact ih hx

end Draft

namespace Planner

variable {p : Planner}

/-- A batch that holds a reading out of range is refused, and nothing changes. -/
theorem on_applyBatch_of_not_isPercentage (p : Planner) {b : Batch} (now : Instant)
    {updates : List ProgressUpdate} {u : ProgressUpdate} (hb : .setProgress updates ∈ b.mutations)
    (hu : u ∈ updates) (hvalue : ¬IsPercentage u.percentageComplete) :
    ∃ e, (applyBatch b now).on p = (.error (.refused e), p) := by
  have hpart : .setProgress [u] ∈ b.parts :=
    List.mem_flatMap.2 ⟨_, hb, List.mem_map_of_mem hu⟩
  have hplan : ∀ {d e}, (p.store.draft b).plan b now ≠ .ok (d, e) := by
    intro d e hplan
    obtain ⟨d₁, ws₁, d₂, hstep⟩ := (Draft.steps_of_plan hplan).exists_step hpart
    cases hstep with
    | record _ hrecord => exact hvalue (Milestone.isPercentage_of_recordProgress hrecord)
  have hends := batchEnds p b now
  generalize (applyBatch b now).on p = result at hends
  obtain ⟨result, q⟩ := result
  cases hends with
  | offline => exact ⟨_, rfl⟩
  | rejected => exact ⟨_, rfl⟩
  | refused => exact ⟨_, rfl⟩
  | idle _ h => exact absurd h hplan
  | committed _ h => exact absurd h hplan
  | marked _ h => exact absurd h hplan
  | fault _ h => exact absurd h hplan

/-- What is remembered is the schedule of the records, and the milestones of a contract have
progress and weights in range, if there are any.  After every run, the progress of a milestone of
the contract is a percentage or that with which an accepted batch created it, and its weight is at
most a hundred or that with which it was created.  No batch is accepted then that holds a reading
out of range. -/
theorem Truthful.inRange_afterAll (hp : p.Truthful) {c : ContractId}
    (hstored : ∀ m ∈ (p.store.records c).milestones.toList,
      IsPercentage m.percentageComplete ∧ m.criticalityScore ≤ 100) (os : List Operation) :
    (∀ m ∈ ((p.afterAll os).store.records c).milestones.toList,
      (IsPercentage m.percentageComplete ∨ ∃ x, .createMilestone x ∈ p.changes c os ∧
        x.id = m.id ∧ x.percentageComplete = m.percentageComplete) ∧
      (m.criticalityScore ≤ 100 ∨ ∃ x, .createMilestone x ∈ p.changes c os ∧
        x.id = m.id ∧ x.criticalityScore = m.criticalityScore)) ∧
    ∀ b now updates u, .setProgress updates ∈ b.mutations → u ∈ updates →
      ¬IsPercentage u.percentageComplete →
        ∃ e, (applyBatch b now).on (p.afterAll os) = (.error (.refused e), p.afterAll os) := by
  have hcourse := hp.course_afterAll os c
  refine ⟨fun m hm => ⟨?_, ?_⟩, fun b now updates u hb hu hvalue =>
    on_applyBatch_of_not_isPercentage _ now hb hu hvalue⟩
  · have hprogress := hcourse.good_or_created Milestone.percentageComplete IsPercentage
      (fun _ _ => rfl) (fun h hm' => h.percentageComplete_cases hm') (fun m hm => (hstored m hm).1) hm
    exact hprogress.imp_right fun ⟨x, hx, hsame⟩ =>
      ⟨x, Mutation.mem_of_mem_flatMap_parts hx nofun nofun, hsame⟩
  · have hweight := hcourse.good_or_created Milestone.criticalityScore (· ≤ 100)
      (fun _ _ => rfl) (fun h hm' => h.criticalityScore_cases hm') (fun m hm => (hstored m hm).2) hm
    exact hweight.imp_right fun ⟨x, hx, hsame⟩ =>
      ⟨x, Mutation.mem_of_mem_flatMap_parts hx nofun nofun, hsame⟩

/-- Creates a milestone with more progress and weight than there is. -/
def excess : Batch :=
  { contractId := 1
    mutations :=
      [.createMilestone
        { id := 1, contractId := 1, title := "a", criticalityScore := 200
          percentageComplete := 250 }] }

/-- On an empty store the batch is accepted, and the milestone is stored as it is. -/
theorem not_inRange_afterAll_excess :
    (withDefaults {}).accepts excess .epoch = true ∧
      ∃ m ∈ (((withDefaults {}).afterAll [.batch excess .epoch]).store.records 1).milestones.toList,
        ¬IsPercentage m.percentageComplete ∧ ¬m.criticalityScore ≤ 100 :=
  ⟨rfl, _, .head _, by decide, by decide⟩

/-- A reading above the hundred is refused for the milestone, after one in range as well. -/
theorem inRange_afterAll_excess :
    (withDefaults {}).Truthful ∧
      (∀ m ∈ ((withDefaults {}).store.records 1).milestones.toList,
        IsPercentage m.percentageComplete ∧ m.criticalityScore ≤ 100) ∧
      ∃ p e, p = (withDefaults {}).afterAll [.batch excess .epoch] ∧
        (applyBatch ⟨1, [.setProgress [⟨1, 60⟩, ⟨1, 101⟩]]⟩ .epoch).on p =
          (.error (.refused e), p) := by
  have hp : (withDefaults {}).Truthful := .of_entries rfl
  have hstored : ∀ m ∈ ((withDefaults {}).store.records 1).milestones.toList,
      IsPercentage m.percentageComplete ∧ m.criticalityScore ≤ 100 := by decide
  obtain ⟨-, hrefused⟩ := hp.inRange_afterAll hstored [.batch excess .epoch]
  obtain ⟨e, he⟩ := hrefused ⟨1, [.setProgress [⟨1, 60⟩, ⟨1, 101⟩]]⟩ .epoch _ ⟨1, 101⟩
    List.mem_cons_self (.tail _ (.head _)) (by decide)
  exact ⟨hp, hstored, _, e, rfl, he⟩

/-- The store is empty at first, and what is remembered is the schedule of the records.  The journal
of every contract only grows at its end.  If no milestone of the contract is created again after an
accepted batch deleted it, then the progress on record of every milestone with readings is the last
of them. -/
theorem Truthful.reading_afterAll (hp : p.Truthful) (hempty : p.store.contracts = .empty)
    (before after : List Operation) (c : ContractId) :
    ((p.afterAll before).store.records c).history <+:
        ((p.afterAll (before ++ after)).store.records c).history ∧
      (Mutation.NoneRevived (p.changes c (before ++ after)) →
        ∀ m ∈ ((p.afterAll (before ++ after)).store.records c).milestones.toList, ∀ e,
          (((p.afterAll (before ++ after)).store.records c).history.filter
            fun e => e.milestoneId == m.id).getLast? = some e →
          m.percentageComplete = e.percentageComplete) := by
  have hstart : p.store.records c = { contractId := c } := by
    rw [Store.records, hempty]
    rfl
  refine ⟨?_, fun hrevived m hm e he => ?_⟩
  · rw [afterAll_append]
    exact ((hp.afterAll before).course_afterAll after c).history_grows
  · have hcurrent := (hp.course_afterAll (before ++ after) c).current hrevived.parts m.id
      (.of_readings (by rw [hstart]; rfl))
    have hprogress := hcurrent e he
    rw [Dossier.progress, ContractRecords.milestone_dossier hm] at hprogress
    rcases hprogress with hsome | ⟨hnone, -⟩
    · exact Option.some_inj.1 hsome
    · cases hnone

/-- Two milestones are created and have readings. -/
def firstReadings : List Operation :=
  [.batch ⟨1, [.createMilestone { id := 1, contractId := 1, title := "a" },
      .createMilestone { id := 2, contractId := 1, title := "b" },
      .setProgress [⟨1, 30⟩, ⟨2, 10⟩]]⟩ .epoch]

/-- The first milestone has another reading and the second is deleted.  Then a batch is rejected that
creates the first one again. -/
def lastReadings : List Operation :=
  [.batch ⟨1, [.setProgress [⟨1, 60⟩], .deleteMilestone 2]⟩ .epoch,
    .batch ⟨1, [.createMilestone { id := 1, contractId := 1, title := "again" }]⟩ .epoch]

/-- The journal keeps the readings of the deleted milestone, and the other one stands at its last
reading. -/
theorem reading_afterAll_lastReadings :
    (withDefaults {}).Truthful ∧ (withDefaults {}).store.contracts = .empty ∧
      Mutation.NoneRevived ((withDefaults {}).changes 1 (firstReadings ++ lastReadings)) ∧
      ∃ r, r = ((withDefaults {}).afterAll (firstReadings ++ lastReadings)).store.records 1 ∧
        [⟨1, 30, .epoch⟩, ⟨2, 10, .epoch⟩] <+: r.history ∧
        ∃ m ∈ r.milestones.toList, m.percentageComplete = 60 := by
  have hp : (withDefaults {}).Truthful := .of_entries rfl
  have hrevived : Mutation.NoneRevived
      ((withDefaults {}).changes 1 (firstReadings ++ lastReadings)) := by decide
  obtain ⟨hgrows, hlast⟩ := hp.reading_afterAll rfl firstReadings lastReadings 1
  exact ⟨hp, rfl, hrevived, _, rfl, hgrows, _, .head _,
    hlast hrevived _ (.head _) ⟨1, 60, .epoch⟩ rfl⟩

end Planner

end Milestones
