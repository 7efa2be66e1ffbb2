import Milestones.Proofs.Change.Admission
import Milestones.Proofs.Planner.Course
import Milestones.Proofs.Planner.Ownership

/-!
# Batches of dependencies

What planning says of new dependencies, a planner does: it rejects one that closes a cycle with a
report on that cycle, and it accepts several in one batch exactly if the contract can take them
together.  In which order they stand in the batch makes no difference, neither to whether they are
accepted nor to what is stored.

## Main definitions

* `Batch.joining`: a batch of new dependencies.

## Main statements

* `Planner.rejected_cycle_iff_reaches`: one dependency, and the report if it closes a cycle.
* `Planner.accepts_joining_iff`: several dependencies, in any order.
-/

namespace Milestones

open Outcome

/-- The batch that adds dependencies to a contract. -/
def Batch.joining (c : ContractId) (es : List Dependency) : Batch := ⟨c, es.map .addDependency⟩

theorem Batch.parts_joining (c : ContractId) (es : List Dependency) :
    (joining c es).parts = es.map .addDependency := by
  rw [parts, joining, List.flatMap_map]
  exact List.flatMap_pure_eq_map _ es

/-- Notes are made of milestones that the contract does not have. -/
theorem Store.notesOthers_draft (s : Store) (b : Batch) : (s.draft b).NotesOthers := by
  intro id hid
  rw [List.lookup_eq_none_iff]
  rintro ⟨id', c⟩ hnote
  obtain ⟨id'', hmissing, hnote⟩ := List.mem_filterMap.1 (List.mem_reverse.1 hnote)
  obtain rfl := eq_of_note? hnote
  have hnone := (List.mem_filter.1 hmissing).2
  rw [Bool.not_eq_true'] at hnone
  rw [bne_iff_ne]
  rintro rfl
  exact Bool.false_ne_true (hnone.symm.trans hid)

/-- Dependencies that come one after the other, whatever is marked in between, are all there in the
end. -/
theorem ContractRecords.Course.mem_dependencies {r r' : ContractRecords} {es : List Dependency}
    (h : Course r (es.map .addDependency) r') {x : Dependency} :
    x ∈ r'.dependencies.toList ↔ x ∈ r.dependencies.toList ∨ x ∈ es := by
  generalize hxs : es.map Mutation.addDependency = xs at h
  induction h generalizing es with
  | refl r =>
    cases List.map_eq_nil_iff.1 hxs
    simp
  | step hstep _ ih =>
    obtain ⟨e, es', rfl, rfl, hrest⟩ := List.map_eq_cons_iff.1 hxs
    cases hstep with
    | join hadmits =>
      rw [ih hrest, List.mem_cons, ← or_assoc, or_comm (b := x = e)]
      exact or_congr_left (mem_insert_of_new hadmits.new_id)
  | marked hmarks _ ih => rw [ih hxs, hmarks.dependencies_eq]

namespace Planner

variable {p : Planner} (hon : p.store.offline = false) {c : ContractId}
include hon

/-- A batch on records that name their contract is accepted as soon as it can be planned. -/
theorem accepts_iff_exists_plan {b : Batch} {now : Instant}
    (hnames : (p.store.records b.contractId).NamesContract) :
    p.accepts b now = true ↔ ∃ planned, (p.store.draft b).plan b now = .ok planned := by
  rw [accepts]
  have hends := batchEnds p b now
  generalize ((applyBatch b now).on p).1 = result at hends ⊢
  generalize ((applyBatch b now).on p).2 = q at hends
  cases hends with
  | offline hoff => cases hon.symm.trans hoff
  | rejected _ hplan => simp [Outcome.isRefused, hplan]
  | refused _ hplan happly =>
    have hwrites := Store.applyAll_of_plan hnames hplan
    cases happly.symm.trans (Store.apply_eq_ok.2 ⟨hon, _, hwrites, rfl⟩)
  | idle _ hplan => simp [Outcome.isRefused, hplan]
  | committed _ hplan => simp [Outcome.isRefused, hplan]
  | marked _ hplan => simp [Outcome.isRefused, hplan]
  | fault _ hplan => simp [Outcome.isRefused, hplan]

omit hon in
/-- What stops an accepted batch stops the marking of critical milestones. -/
theorem exists_ok_of_accepts {b : Batch} {now : Instant}
    (hmarks : p.settings.persistCriticalFlags = false) (h : p.accepts b now = true) :
    ∃ o, ((applyBatch b now).on p).1 = .ok o := by
  rw [accepts] at h
  have hends := batchEnds p b now
  generalize ((applyBatch b now).on p).1 = result at hends h ⊢
  generalize ((applyBatch b now).on p).2 = q at hends
  cases hends with
  | offline => simp [Outcome.isRefused] at h
  | rejected => simp [Outcome.isRefused] at h
  | refused => simp [Outcome.isRefused] at h
  | idle => exact ⟨_, rfl⟩
  | committed => exact ⟨_, rfl⟩
  | marked => exact ⟨_, rfl⟩
  | fault _ _ _ hset =>
    rw [marksAfter, hmarks, Bool.false_and] at hset
    cases hset

/-! ## One dependency -/

omit hon in
/-- The plan of a batch of one dependency is the check of that dependency. -/
theorem plan_joining_singleton (e : Dependency) (now : Instant) :
    (∀ r, (p.store.draft (.joining c [e])).checkDependency e = .error r →
      (p.store.draft (.joining c [e])).plan (.joining c [e]) now = .error (0, r)) ∧
      ((p.store.draft (.joining c [e])).checkDependency e = .ok () →
        ∃ planned, (p.store.draft (.joining c [e])).plan (.joining c [e]) now = .ok planned) := by
  simp only [Draft.plan, Batch.joining, List.map_cons, List.map_nil, Draft.planFrom, Draft.mutate]
  constructor
  · intro r hr
    rw [hr]
    rfl
  · intro hok
    rw [hok]
    exact ⟨_, rfl⟩

/-- A new dependency between two different milestones of a contract without cycles is rejected for
a cycle exactly if its prerequisite depends on its dependent already, directly or indirectly, over
links of any kind.  The report then has one group, and this consists of the milestones on the paths
from the dependent to the prerequisite.  Otherwise the dependency is accepted. -/
theorem rejected_cycle_iff_reaches {g : Graph} (hg : (p.store.records c).graph = .ok g)
    (hacyclic : g.Acyclic) {e : Dependency} (hfits : (p.store.records c).Fits [e]) (now : Instant) :
    ((∃ r, ((applyBatch (.joining c [e]) now).on p).1 =
        .error (.refused (.rejected 0 (.cycle r)))) ↔ g.Reaches e.milestoneId e.dependsOnId) ∧
      (∀ r, ((applyBatch (.joining c [e]) now).on p).1 =
          .error (.refused (.rejected 0 (.cycle r))) →
        r.groups = [r.members] ∧
          ∀ id, id ∈ r.members ↔ g.Between e.milestoneId e.dependsOnId id) ∧
      (¬g.Reaches e.milestoneId e.dependsOnId → p.accepts (.joining c [e]) now = true) := by
  have hrecords : (p.store.draft (.joining c [e])).records (p.store.records c).history =
    p.store.records c := p.store.records_draft _
  have hnotes := p.store.notesOthers_draft (.joining c [e])
  have hnames : (p.store.records c).NamesContract := (Graph.exists_ofRecords_iff.1 ⟨g, hg⟩).1
  rw [← hrecords] at hg hfits
  have hplan := plan_joining_singleton (p := p) (c := c) e now
  by_cases hreaches : g.Reaches e.milestoneId e.dependsOnId
  · obtain ⟨r, hcheck, hgroups⟩ :=
      Draft.checkDependency_of_reaches hnotes hg hacyclic hfits hreaches
    have hrejected := on_applyBatch_of_rejected hon (hplan.1 _ hcheck)
    refine ⟨iff_of_true ⟨r, by rw [hrejected]⟩ hreaches, fun r' hr' => ?_, absurd hreaches⟩
    rw [hrejected] at hr'
    cases hr'
    exact hgroups
  · have hcheck := Draft.checkDependency_of_not_reaches hnotes hg hacyclic hfits hreaches
    have haccepts := (accepts_iff_exists_plan hon hnames).2 (hplan.2 hcheck)
    have hnone : ∀ r, ((applyBatch (.joining c [e]) now).on p).1 ≠
        .error (.refused (.rejected 0 (.cycle r))) := by
      intro r hr
      rw [accepts, hr] at haccepts
      simp [Outcome.isRefused] at haccepts
    exact ⟨iff_of_false (not_exists.2 hnone) hreaches, fun r hr => absurd hr (hnone r),
      fun _ => haccepts⟩

/-! ## Several dependencies -/

/-- A batch of new dependencies for a contract without cycles is accepted exactly if the contract
can take them together.  So every order of them is accepted or none is, and whichever order is
accepted, the contract has the old dependencies and the new ones afterwards.  Unless marks are set,
an accepted batch returns what it did. -/
theorem accepts_joining_iff (hr : (p.store.records c).Orderable) (es : List Dependency)
    (now : Instant) :
    (p.accepts (.joining c es) now = true ↔ (p.store.records c).CanTake es) ∧
      (∀ es', es.Perm es' →
        p.accepts (.joining c es') now = p.accepts (.joining c es) now ∧
          (p.accepts (.joining c es) now = true →
            ((((applyBatch (.joining c es') now).on p).2.store.records c).dependencies =
              (((applyBatch (.joining c es) now).on p).2.store.records c).dependencies) ∧
            ∀ x, x ∈ (((applyBatch (.joining c es') now).on p).2.store.records
              c).dependencies.toList ↔ x ∈ (p.store.records c).dependencies.toList ∨ x ∈ es)) ∧
      (p.settings.persistCriticalFlags = false → p.accepts (.joining c es) now = true →
        ∃ o, ((applyBatch (.joining c es) now).on p).1 = .ok o) := by
  have haccepts : ∀ es, p.accepts (.joining c es) now = true ↔ (p.store.records c).CanTake es := by
    intro es
    have hrecords : (p.store.draft (.joining c es)).records (p.store.records c).history =
      p.store.records c := p.store.records_draft _
    rw [accepts_iff_exists_plan hon (ContractRecords.orderable_iff.1 hr).1, ← hrecords]
    exact Draft.exists_planFrom_iff (p.store.notesOthers_draft _) (hrecords.symm ▸ hr) 0
  have hperm : ∀ es', es.Perm es' →
      p.accepts (.joining c es') now = p.accepts (.joining c es) now := by
    intro es' hes
    rw [Bool.eq_iff_iff, haccepts, haccepts]
    exact ⟨fun h => h.perm hes.symm, fun h => h.perm hes⟩
  have hstored : ∀ es, p.accepts (.joining c es) now = true → ∀ x,
      x ∈ (((applyBatch (.joining c es) now).on p).2.store.records c).dependencies.toList ↔
        x ∈ (p.store.records c).dependencies.toList ∨ x ∈ es := by
    intro es h x
    have hcourse := (batchEnds p (.joining c es) now).course
    rw [accepts, Bool.not_eq_true'] at h
    rw [h, if_neg Bool.false_ne_true, Batch.parts_joining] at hcourse
    exact hcourse.mem_dependencies
  refine ⟨haccepts es, fun es' hes => ⟨hperm es' hes, fun h => ?_⟩,
    fun hmarks h => exists_ok_of_accepts hmarks h⟩
  have hall : ∀ x, x ∈ (((applyBatch (.joining c es') now).on p).2.store.records
      c).dependencies.toList ↔ x ∈ (p.store.records c).dependencies.toList ∨ x ∈ es := by
    intro x
    rw [hstored es' ((hperm es' hes).trans h), hes.mem_iff]
  refine ⟨Table.ext (Table.eq_of_forall_mem_iff (Table.ascending _) (Table.ascending _) ?_), hall⟩
  exact fun x => (hall x).trans (hstored es h x).symm

end Planner

/-! ## Dependencies for the fork -/

/-- Back from the joint end of the fork to its second start. -/
def backLink : Dependency := ⟨4, 2, 3, .parallel⟩

/-- The link back is rejected.  Its report is about the path from the second start to the joint end,
and the gate, which leads nowhere, is not on it. -/
theorem rejected_cycle_backLink : (forkStore.records 1).graph = .ok Graph.fork ∧
    Graph.fork.Acyclic ∧ (forkStore.records 1).Fits [backLink] ∧
      ∃ r, ((Planner.applyBatch (.joining 1 [backLink]) .epoch).on (.withDefaults forkStore)).1 =
          .error (.refused (.rejected 0 (.cycle r))) ∧
        r.groups = [r.members] ∧ 2 ∈ r.members ∧ 3 ∈ r.members ∧ 4 ∉ r.members := by
  have hg : (forkStore.records 1).graph = .ok Graph.fork := rfl
  have hacyclic : Graph.fork.Acyclic := Graph.isWorkOrder_fork.2.1
  have hfits : (forkStore.records 1).Fits [backLink] :=
    { contains := by decide, ne := by decide, new_id := by decide, nodup_ids := by decide
      new_terms := by decide, nodup_terms := by decide }
  obtain ⟨hiff, hgroups, -⟩ := Planner.rejected_cycle_iff_reaches
    (p := .withDefaults forkStore) rfl hg hacyclic hfits .epoch
  have hlink : Graph.fork.Leads 2 3 := by decide
  obtain ⟨r, hr⟩ := hiff.2 (.single hlink)
  obtain ⟨hone, hmembers⟩ := hgroups r hr
  refine ⟨hg, hacyclic, hfits, r, hr, hone, (hmembers 2).2 ⟨.refl, .single hlink⟩,
    (hmembers 3).2 ⟨.single hlink, .refl⟩, fun hgate => ?_⟩
  obtain ⟨-, hleads⟩ := (hmembers 4).1 hgate
  rcases Relation.ReflTransGen.cases_head hleads with heq | ⟨id, hid, -⟩
  · exact absurd heq (by decide)
  · exact absurd hid List.not_mem_nil

/-- From the gate to the first start, and along with that to the joint end. -/
def gateLinks : List Dependency := [⟨4, 1, 4, .prerequisite⟩, ⟨5, 3, 4, .parallel⟩]

/-- Records that only lead from lower to higher ranks have no cycle. -/
theorem recordsAcyclic_of_rank {es : List Dependency} (rank : MilestoneId → Nat)
    (h : ∀ e ∈ es, rank e.dependsOnId < rank e.milestoneId) : RecordsAcyclic es := by
  have hlt : ∀ a b, Relation.TransGen (RecordsLead es) a b → rank a < rank b := by
    intro a b hab
    induction hab with
    | single hab =>
      obtain ⟨e, he, rfl, rfl⟩ := hab
      exact h e he
    | tail _ hbc ih =>
      obtain ⟨e, he, rfl, rfl⟩ := hbc
      exact ih.trans (h e he)
  intro id hcycle
  exact Nat.lt_irrefl _ (hlt id id hcycle)

/-- The fork can take both links, in either order. -/
theorem accepts_joining_gateLinks : (forkStore.records 1).Orderable ∧
    (forkStore.records 1).CanTake gateLinks ∧
      (Planner.withDefaults forkStore).accepts (.joining 1 gateLinks.reverse) .epoch = true ∧
      ∀ x, x ∈ (((Planner.applyBatch (.joining 1 gateLinks.reverse) .epoch).on
          (.withDefaults forkStore)).2.store.records 1).dependencies.toList ↔
        x ∈ (forkStore.records 1).dependencies.toList ∨ x ∈ gateLinks := by
  have horderable : (forkStore.records 1).Orderable := (wellFormed_forkStore 1).orderable
  have htake : (forkStore.records 1).CanTake gateLinks :=
    { contains := by decide, ne := by decide, new_id := by decide, nodup_ids := by decide
      new_terms := by decide, nodup_terms := by decide
      acyclic := recordsAcyclic_of_rank (fun id => [2, 4, 1, 3].idxOf id) (by decide) }
  obtain ⟨hiff, hperm, -⟩ := Planner.accepts_joining_iff (p := .withDefaults forkStore) rfl
    horderable gateLinks .epoch
  have haccepts := hiff.2 htake
  obtain ⟨hsame, hstored⟩ := hperm gateLinks.reverse (List.reverse_perm _).symm
  exact ⟨horderable, htake, hsame.trans haccepts, (hstored haccepts).2⟩

end Milestones
