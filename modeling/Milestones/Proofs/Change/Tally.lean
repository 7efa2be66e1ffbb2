import Milestones.Proofs.Change.Commit

/-!
# What a batch adds up to

Every creation makes one milestone more and every deletion one less.  A new dependency makes one
dependency more and a removal one less, but a deletion takes along whatever is at the milestone, and
how many that are is known only when it is its turn.  The outcome of a batch reports the dependencies
that went this way, and with them the numbers add up.

They do whatever is stored: dependencies without an end and milestones that wait for themselves are
counted like all others, and a milestone may be created, deleted and created again.

## Main definitions

* `Mutation.isCreation`, `Mutation.isDeletion`, `Mutation.isAddition`, `Mutation.isRemoval`: the
  changes by which records come and go.
* `Draft.Balances`: the numbers of records before and after some changes, and of writes for them.
* `Batch.LeavesDeleted`: of the creations and deletions of a milestone the last one is a deletion.
* `Draft.Cleared`: nothing is left of a milestone.

## Main statements

* `Draft.balances_of_plan`: the numbers of an accepted batch.
* `Draft.Steps.cleared`: nothing is left of a milestone that ends up deleted.
* `Draft.tally_of_plan`: the numbers of an accepted batch, on the draft and in the store.
-/

namespace Milestones

open Outcome

/-! ## Records that come and go -/

namespace Mutation

/-- The change creates a milestone. -/
def isCreation : Mutation → Bool
  | createMilestone _ => true
  | _ => false

/-- The change deletes a milestone. -/
def isDeletion : Mutation → Bool
  | deleteMilestone _ => true
  | _ => false

/-- The change adds a dependency. -/
def isAddition : Mutation → Bool
  | addDependency _ => true
  | _ => false

/-- The change removes a dependency. -/
def isRemoval : Mutation → Bool
  | removeDependency _ => true
  | _ => false

/-- The change creates or deletes the milestone. -/
def settles (id : MilestoneId) : Mutation → Bool
  | createMilestone m => m.id == id
  | deleteMilestone id' => id' == id
  | _ => false

/-- A change that is taken apart is none of those that a test picks out, if the test picks out
neither moves nor readings. -/
theorem filter_flatMap_parts {pick : Mutation → Bool}
    (hstatus : ∀ ids status, pick (setStatus ids status) = false)
    (hprogress : ∀ updates, pick (setProgress updates) = false) (xs : List Mutation) :
    (xs.flatMap parts).filter pick = xs.filter pick := by
  induction xs with
  | nil => rfl
  | cons x rest ih =>
    have hparts : x.parts.filter pick = [x].filter pick := by
      cases x <;> simp [parts, hstatus, hprogress]
    rw [List.flatMap_cons, List.filter_append, ih, hparts, ← List.filter_append,
      List.singleton_append]

theorem countP_flatMap_parts {pick : Mutation → Bool}
    (hstatus : ∀ ids status, pick (setStatus ids status) = false)
    (hprogress : ∀ updates, pick (setProgress updates) = false) (xs : List Mutation) :
    (xs.flatMap parts).countP pick = xs.countP pick := by
  rw [List.countP_eq_length_filter, filter_flatMap_parts hstatus hprogress,
    List.countP_eq_length_filter]

end Mutation

/-- Of the changes of a batch that create or delete the milestone, the last one deletes it. -/
def Batch.LeavesDeleted (b : Batch) (id : MilestoneId) : Prop :=
  (b.mutations.filter (Mutation.settles id)).getLast? = some (.deleteMilestone id)

instance (b : Batch) (id : MilestoneId) : Decidable (b.LeavesDeleted id) :=
  inferInstanceAs (Decidable (_ = _))

namespace Draft

variable {now : Instant} {d d' d'' : Draft} {xs ys : List Mutation} {e e' : Effect}

/-! ## Numbers -/

/-- The numbers of milestones, dependencies and writes add up over some changes with some effect. -/
structure Balances (now : Instant) (d : Draft) (xs : List Mutation) (e : Effect) (d' : Draft) :
    Prop where
  milestones : d'.milestones.size + xs.countP Mutation.isDeletion =
    d.milestones.size + xs.countP Mutation.isCreation
  dependencies : d'.dependencies.size + xs.countP Mutation.isRemoval + e.cascaded =
    d.dependencies.size + xs.countP Mutation.isAddition
  /-- One write for each milestone that is touched and for each dependency that comes or goes, and
  another one for each reading. -/
  writes : e.writes.length =
    e.touched + (xs.flatMap (Mutation.readings now)).length + xs.countP Mutation.isAddition +
      xs.countP Mutation.isRemoval + e.cascaded

namespace Balances

theorem refl (d : Draft) : Balances now d [] {} d := ⟨rfl, rfl, rfl⟩

theorem trans (h : Balances now d xs e d') (h' : Balances now d' ys e' d'') :
    Balances now d (xs ++ ys) (e ++ e') d'' := by
  have hcascaded : (e ++ e').cascaded = e.cascaded + e'.cascaded := rfl
  have htouched : (e ++ e').touched = e.touched + e'.touched := rfl
  have hwrites : (e ++ e').writes = e.writes ++ e'.writes := rfl
  obtain ⟨hm, hd, hw⟩ := h
  obtain ⟨hm', hd', hw'⟩ := h'
  constructor
  · simp only [List.countP_append]
    omega
  · simp only [List.countP_append, hcascaded]
    omega
  · simp only [List.countP_append, List.flatMap_append, List.length_append, hcascaded, htouched,
      hwrites]
    omega

end Balances

/-- A milestone in the place of another one makes no difference. -/
theorem size_put_of_find {id : MilestoneId} {m m' : Milestone} (hfind : d.find id = .ok m)
    (hid : m'.id = m.id) : (d.put m').milestones.size = d.milestones.size := by
  refine Table.size_insert_of_contains (a := m') ?_
  rw [show recordId m' = m.id from hid]
  exact contains_of_find hfind

theorem balances_setStatus {status : Status} {id : MilestoneId}
    (h : setStatus status now d id = .ok (d', e)) :
    Balances now d [.setStatus [id] status] e d' := by
  obtain ⟨m, hfind, h⟩ := bind_eq_ok.1 h
  split at h
  · cases h
    exact ⟨rfl, rfl, rfl⟩
  · obtain ⟨m', hmove, h⟩ := bind_eq_ok.1 h
    cases h
    exact ⟨size_put_of_find hfind (Milestone.sameButStanding_of_moveTo hmove).id_eq, rfl, rfl⟩

theorem balances_setProgress {u : ProgressUpdate} (h : setProgress now d u = .ok (d', e)) :
    Balances now d [.setProgress [u]] e d' := by
  obtain ⟨m, hfind, h⟩ := bind_eq_ok.1 h
  obtain ⟨m', hrecord, h⟩ := bind_eq_ok.1 h
  cases h
  exact ⟨size_put_of_find hfind (Milestone.sameButStanding_of_recordProgress hrecord).id_eq, rfl,
    rfl⟩

/-- If the numbers add up over each of several changes, they add up over all in a row. -/
theorem balances_each {α : Type} {change : Draft → α → Except Rejection (Draft × Effect)}
    {label : α → Mutation}
    (hchange : ∀ {d a d' e}, change d a = .ok (d', e) → Balances now d [label a] e d')
    {as : List α} (h : each change d as = .ok (d', e)) :
    Balances now d (as.map label) e d' := by
  induction as generalizing d e with
  | nil =>
    cases h
    exact .refl _
  | cons a rest ih =>
    obtain ⟨⟨d₁, e₁⟩, h₁, h⟩ := bind_eq_ok.1 h
    obtain ⟨⟨d₂, e₂⟩, h₂, h⟩ := bind_eq_ok.1 h
    cases h
    exact (hchange h₁).trans (ih h₂)

/-- The numbers add up over every change that is accepted. -/
theorem balances_of_mutate {x : Mutation} (h : d.mutate now x = .ok (d', e)) :
    Balances now d x.parts e d' := by
  cases x with
  | setStatus ids status =>
    rw [mutate] at h
    exact balances_each (fun h => balances_setStatus h) h
  | setProgress updates =>
    rw [mutate] at h
    exact balances_each (fun h => balances_setProgress h) h
  | createMilestone m =>
    simp only [mutate] at h
    split at h
    · cases h
    split at h
    · cases h
    rename_i hnew
    obtain ⟨_, -, h⟩ := bind_eq_ok.1 h
    cases h
    have hsize : (d.milestones.insert { m with criticalPath := false }).size = _ :=
      Table.size_insert_of_new (by simp_all [recordId])
    exact ⟨hsize, rfl, rfl⟩
  | updateMilestone id edit =>
    obtain ⟨_, -, h⟩ := bind_eq_ok.1 h
    obtain ⟨m, hfind, h⟩ := bind_eq_ok.1 h
    cases h
    exact ⟨size_put_of_find hfind (edit.id_apply m), rfl, rfl⟩
  | deleteMilestone id =>
    obtain ⟨m, hfind, h⟩ := bind_eq_ok.1 h
    cases h
    have hmilestones := Table.size_erase (contains_of_find hfind)
    have hdependencies := d.dependencies.size_filter (·.touches id)
    rw [id_of_find hfind] at hmilestones
    constructor
    · exact hmilestones
    · simpa [Mutation.parts, Mutation.isRemoval, Mutation.isAddition] using hdependencies
    · simp [Mutation.parts, Mutation.isRemoval, Mutation.isAddition, Mutation.readings, Nat.add_comm]
  | addDependency x =>
    obtain ⟨_, hcheck, h⟩ := bind_eq_ok.1 h
    cases h
    exact ⟨rfl, Table.size_insert_of_new (admits_of_checkDependency hcheck).new_id, rfl⟩
  | removeDependency id =>
    simp only [mutate] at h
    split at h
    · cases h
    rename_i hcontains
    cases h
    exact ⟨rfl, Table.size_erase (by simpa using hcontains), rfl⟩

theorem balances_of_planFrom {index : Nat} (h : planFrom now index d xs = .ok (d', e)) :
    Balances now d (xs.flatMap Mutation.parts) e d' := by
  induction xs generalizing index d e with
  | nil =>
    cases h
    exact .refl _
  | cons x rest ih =>
    obtain ⟨⟨d₁, e₁⟩, h₁, h⟩ := bind_eq_ok.1 h
    obtain ⟨⟨d₂, e₂⟩, h₂, h⟩ := bind_eq_ok.1 h
    cases h
    have hfirst := balances_of_mutate (mapError_eq_ok.1 h₁)
    rw [List.flatMap_cons]
    -- Whether the schedule may change is no number.
    exact .trans ⟨hfirst.milestones, hfirst.dependencies, hfirst.writes⟩ (ih h₂)

/-- The numbers add up over an accepted batch. -/
theorem balances_of_plan {b : Batch} (h : d.plan b now = .ok (d', e)) :
    Balances now d b.mutations e d' := by
  obtain ⟨hm, hd, hw⟩ := balances_of_planFrom h
  have hcount : ∀ {pick : Mutation → Bool}, (∀ ids status, pick (.setStatus ids status) = false) →
      (∀ updates, pick (.setProgress updates) = false) →
      (b.mutations.flatMap Mutation.parts).countP pick = b.mutations.countP pick :=
    fun hstatus hprogress => Mutation.countP_flatMap_parts hstatus hprogress b.mutations
  have hreadings : ((b.mutations.flatMap Mutation.parts).flatMap (Mutation.readings now)) =
      b.mutations.flatMap (Mutation.readings now) := b.flatMap_readings_parts now
  rw [hcount (fun _ _ => rfl) fun _ => rfl, hcount (fun _ _ => rfl) fun _ => rfl] at hm hd
  rw [hreadings, hcount (fun _ _ => rfl) fun _ => rfl, hcount (fun _ _ => rfl) fun _ => rfl] at hw
  exact ⟨hm, hd, hw⟩

/-! ## Deleted milestones -/

/-- The milestone is not there, and no dependency is at it. -/
structure Cleared (id : MilestoneId) (d : Draft) : Prop where
  milestone : d.milestones.contains id = false
  dependency : ∀ x ∈ d.dependencies.toList, x.touches id = false

variable {id : MilestoneId} {x : Mutation} {ws : List Write}

theorem Cleared.put (h : d.Cleared id) {m : Milestone} (hne : m.id ≠ id) : (d.put m).Cleared id where
  milestone := by
    rw [← Bool.not_eq_true, Draft.put, Table.contains_insert, h.milestone]
    simpa [recordId] using hne
  dependency := h.dependency

/-- A milestone that is found is another one. -/
theorem Cleared.ne_of_find (h : d.Cleared id) {id' : MilestoneId} {m : Milestone}
    (hfind : d.find id' = .ok m) : id' ≠ id := by
  rintro rfl
  have hcontains := contains_of_find hfind
  rw [id_of_find hfind, h.milestone] at hcontains
  cases hcontains

theorem Step.cleared_of_deletion (h : Step now d (.deleteMilestone id) ws d') : d'.Cleared id := by
  cases h with
  | delete =>
    refine ⟨Table.contains_erase_self _ _, fun y hy => ?_⟩
    simpa using (Table.mem_toList_filter.1 hy).2

/-- Nothing comes back unless the milestone is created again: a new dependency is between milestones
that are there. -/
theorem Step.cleared (h : Step now d x ws d') (hd : d.Cleared id) (hx : x.settles id = false) :
    d'.Cleared id := by
  cases h with
  | keep => exact hd
  | move hfind _ hmove =>
    refine hd.put ?_
    rw [(Milestone.sameButStanding_of_moveTo hmove).id_eq]
    exact hd.ne_of_find hfind
  | record hfind hrecord =>
    refine hd.put ?_
    rw [(Milestone.sameButStanding_of_recordProgress hrecord).id_eq]
    exact hd.ne_of_find hfind
  | create => exact hd.put (by simpa [Mutation.settles] using hx)
  | edit hfind => exact hd.put (hd.ne_of_find hfind)
  | delete =>
    refine ⟨?_, fun y hy => hd.dependency y (Table.mem_toList_filter.1 hy).1⟩
    rw [← Bool.not_eq_true, Table.contains_erase, hd.milestone]
    simp
  | @join y hadmits =>
    refine ⟨hd.milestone, fun z hz => ?_⟩
    obtain ⟨m, hm⟩ := hadmits.find_dependent
    obtain ⟨n, hn⟩ := hadmits.find_prerequisite
    rcases Table.mem_toList_insert.1 hz with rfl | ⟨hz, -⟩
    · simp [Dependency.touches, hd.ne_of_find hm, hd.ne_of_find hn]
    · exact hd.dependency z hz
  | part => exact ⟨hd.milestone, fun y hy => hd.dependency y (Table.mem_toList_erase.1 hy).1⟩

/-- Nothing is left of a milestone if the last change that creates or deletes it is a deletion, or if
there was nothing at first and no such change. -/
theorem Steps.cleared (h : Steps now d xs ws d')
    (hfirst : xs.filter (Mutation.settles id) = [] → d.Cleared id)
    (hlast : ∀ x, (xs.filter (Mutation.settles id)).getLast? = some x → x = .deleteMilestone id) :
    d'.Cleared id := by
  induction h with
  | nil d => exact hfirst rfl
  | @cons d d₁ d' x rest ws ws' hstep _ ih =>
    refine ih (fun hnone => ?_) fun y hy => hlast y ?_
    · cases hx : x.settles id with
      | true =>
        obtain rfl := hlast x (by simp [hx, hnone])
        exact hstep.cleared_of_deletion
      | false => exact hstep.cleared (hfirst (by simp [hx, hnone])) hx
    · rw [List.filter_cons]
      split
      · rw [List.getLast?_cons, hy, Option.getD_some]
      · exact hy

/-! ## A batch -/

/-- The numbers of an accepted batch, whatever milestones and dependencies there were.  There are as
many milestones as before, and the created and without the deleted ones.  There are as many
dependencies as before, and the added and without the removed ones and those that the outcome reports
as deleted with a milestone.  No dependency is at a milestone that ends up deleted.  The outcome
reports as many operations as there are writes: one for each milestone touched and each dependency
that comes or goes, and another one for each reading.  And if the writes are not refused, what is
stored is what was planned. -/
theorem tally_of_plan {b : Batch} (h : d.plan b now = .ok (d', e)) :
    (d'.milestones.size + b.mutations.countP Mutation.isDeletion =
        d.milestones.size + b.mutations.countP Mutation.isCreation) ∧
      (d'.dependencies.size + b.mutations.countP Mutation.isRemoval +
          (BatchOutcome.ofEffect e).cascadedDependencies =
        d.dependencies.size + b.mutations.countP Mutation.isAddition) ∧
      (∀ id, b.LeavesDeleted id → ∀ x ∈ d'.dependencies.toList, x.touches id = false) ∧
      ((BatchOutcome.ofEffect e).operations = e.writes.length ∧
        (BatchOutcome.ofEffect e).operations =
          (BatchOutcome.ofEffect e).milestonesTouched + (b.readings now).length +
            b.mutations.countP Mutation.isAddition + b.mutations.countP Mutation.isRemoval +
            (BatchOutcome.ofEffect e).cascadedDependencies) ∧
      ∀ history r, (d.records history).applyAll e.writes = .ok r →
        r = d'.records (history ++ b.readings now) := by
  obtain ⟨hmilestones, hdependencies, hwrites⟩ := balances_of_plan h
  have hsteps := steps_of_plan h
  refine ⟨hmilestones, hdependencies, fun id hid => ?_, ⟨rfl, hwrites⟩, fun history r hr => ?_⟩
  · have hparts : b.parts.filter (Mutation.settles id) = b.mutations.filter (Mutation.settles id) :=
      Mutation.filter_flatMap_parts (fun _ _ => rfl) (fun _ => rfl) _
    refine (hsteps.cleared (fun hnone => ?_) fun x hx => ?_).dependency
    · rw [Batch.LeavesDeleted, ← hparts, hnone] at hid
      cases hid
    · rw [Batch.LeavesDeleted, ← hparts, hx] at hid
      exact Option.some_inj.1 hid
  · exact eq_of_applyAll_of_plan h hr

/-- Three milestones and four dependencies.  The second one joins a milestone to itself, the third one
has no milestone at either end, and the fourth one at only one of them. -/
def frayed : Draft :=
  ofRecords 1
    [{ id := 1, contractId := 1, title := "a" }, { id := 2, contractId := 1, title := "b" },
      { id := 3, contractId := 1, title := "c" }]
    [⟨1, 2, 1, .prerequisite⟩, ⟨2, 3, 3, .prerequisite⟩, ⟨3, 9, 8, .parallel⟩, ⟨4, 2, 9, .parallel⟩]

/-- Two milestones are deleted and created again, and one of them is deleted once more with a new
dependency. -/
def mending : Batch :=
  { contractId := 1
    mutations :=
      [.deleteMilestone 3, .createMilestone { id := 3, contractId := 1, title := "again" },
        .removeDependency 3, .deleteMilestone 2,
        .createMilestone { id := 2, contractId := 1, title := "again" },
        .addDependency ⟨5, 3, 2, .parallel⟩, .addDependency ⟨6, 2, 1, .prerequisite⟩,
        .setStatus [2, 3] .blocked, .deleteMilestone 3] }

/-- Two creations and three deletions leave two of three milestones.  Two additions, one removal and
four dependencies deleted with their milestones leave one of four dependencies, and not at the third
milestone.  With the two moves this takes fourteen writes. -/
theorem tally_of_plan_mending : ∃ d e, frayed.plan mending .epoch = .ok (d, e) ∧
    mending.LeavesDeleted 3 ∧ d.milestones.size = 2 ∧ d.dependencies.size = 1 ∧
    (∀ x ∈ d.dependencies.toList, x.touches 3 = false) ∧
    (BatchOutcome.ofEffect e).operations = 14 := by
  obtain ⟨⟨d, e⟩, hplan, hcascaded, htouched⟩ : ∃ r, frayed.plan mending .epoch = .ok r ∧
      r.2.cascaded = 4 ∧ r.2.touched = 7 := ⟨_, by cbv, by cbv, by cbv⟩
  have hdeleted : mending.LeavesDeleted 3 := by decide
  obtain ⟨hmilestones, hdependencies, hcleared, ⟨-, hwrites⟩, -⟩ := tally_of_plan hplan
  have hcreations : mending.mutations.countP Mutation.isCreation = 2 := by decide
  have hdeletions : mending.mutations.countP Mutation.isDeletion = 3 := by decide
  have hadditions : mending.mutations.countP Mutation.isAddition = 2 := by decide
  have hremovals : mending.mutations.countP Mutation.isRemoval = 1 := by decide
  have hreadings : (mending.readings .epoch).length = 0 := by decide
  have hsize : frayed.milestones.size = 3 ∧ frayed.dependencies.size = 4 := by decide
  have hcascaded : (BatchOutcome.ofEffect e).cascadedDependencies = 4 := hcascaded
  have htouched : (BatchOutcome.ofEffect e).milestonesTouched = 7 := htouched
  exact ⟨d, e, hplan, hdeleted, by omega, by omega, hcleared 3 hdeleted, by omega⟩

end Draft

end Milestones
