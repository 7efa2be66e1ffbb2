import Milestones.Proofs.Change.Dossier
import Milestones.Proofs.Planner.Frame

/-!
# The course of a contract

Whatever is asked of a planner, the records of a contract change in two ways: by the changes of
accepted batches, one milestone or dependency at a time, and by critical marks.  The marks are
written together with the rest of the milestone, from a schedule that may have been remembered.  As
long as what is remembered is the schedule of the records, nothing but the mark is new.

So a run is, for each contract, a course through the changes that were accepted, and what every
change keeps of one milestone, a run keeps.

## Main definitions

* `ContractRecords.Course`: how the records of a contract come from earlier ones.
* `Planner.accepts`, `Planner.changes`: the changes to a contract that a run makes.

## Main statements

* `ContractRecords.Course.dossier_invariant`: what every change keeps of one milestone.
* `Planner.Truthful.course_afterAll`: a run is a course through the changes that it makes.
-/

namespace Milestones

open Outcome

namespace ContractRecords

/-- How the records of a contract come from earlier ones: by changes about one milestone or one
dependency, in the order of the list, and by other critical marks in between. -/
inductive Course : ContractRecords → List Mutation → ContractRecords → Prop
  | refl (r : ContractRecords) : Course r [] r
  | step {now : Instant} {d d' : Draft} {x : Mutation} {ws : List Write}
      {history : List ProgressReading} {xs : List Mutation} {r : ContractRecords}
      (hstep : Draft.Step now d x ws d')
      (hrest : Course (d'.records (history ++ x.readings now)) xs r) :
      Course (d.records history) (x :: xs) r
  | marked {r r' r'' : ContractRecords} {xs : List Mutation} (hmarks : r.SameButMarks r')
      (hrest : Course r' xs r'') : Course r xs r''

namespace Course

variable {r r' r'' : ContractRecords} {xs ys : List Mutation}

theorem trans (h : Course r xs r') (h' : Course r' ys r'') : Course r (xs ++ ys) r'' := by
  induction h with
  | refl r => exact h'
  | step hstep _ ih => exact .step hstep (ih h')
  | marked hmarks _ ih => exact .marked hmarks (ih h')

theorem of_sameButMarks (h : r.SameButMarks r') : Course r [] r' := .marked h (.refl r')

/-- The writes of steps in a row, where they are not refused. -/
theorem of_steps {now : Instant} {d d' : Draft} {ws : List Write} (h : Draft.Steps now d xs ws d')
    {history : List ProgressReading} (hr : (d.records history).applyAll ws = .ok r) :
    Course (d.records history) xs r := by
  induction h generalizing history with
  | nil d =>
    cases hr
    exact .refl _
  | cons hstep _ ih =>
    rw [applyAll_append, bind_eq_ok] at hr
    obtain ⟨r₁, h₁, hr⟩ := hr
    cases hstep.eq_of_applyAll h₁
    exact .step hstep (ih hr)

/-- The journal only grows, at its end. -/
theorem history_grows (h : Course r xs r') : r.history <+: r'.history := by
  induction h with
  | refl r => exact List.prefix_refl _
  | step _ _ ih => exact (List.prefix_append _ _).trans ih
  | marked hmarks _ ih => exact hmarks.history_eq ▸ ih

/-- What every change keeps of what is stored about one milestone, and every mark, a course keeps.
It may be about the changes that are still to come. -/
theorem dossier_invariant {P : Dossier → List Mutation → Prop} (id : MilestoneId)
    (change : ∀ {now x xs d d'}, Dossier.Change now id x d d' → P d (x :: xs) → P d' xs)
    (mark : ∀ {m mark rs xs}, P ⟨some m, rs⟩ xs → P ⟨some { m with criticalPath := mark }, rs⟩ xs)
    (h : Course r xs r') (hr : P (r.dossier id) xs) : P (r'.dossier id) [] := by
  induction h with
  | refl r => exact hr
  | step hstep _ ih => exact ih (change (hstep.change id _) hr)
  | @marked r r' r'' xs hmarks _ ih =>
    refine ih ?_
    have hmilestone := hmarks.milestone_eq id
    rw [dossier] at hr ⊢
    rw [hmarks.history_eq]
    cases hget : r.milestones.get? id with
    | none =>
      rw [hget, Option.map_none, Option.map_eq_none_iff] at hmilestone
      rw [hmilestone]
      rwa [hget] at hr
    | some m =>
      rw [hget] at hmilestone hr
      obtain ⟨m', hget', hsame⟩ := Option.map_eq_some_iff.1 hmilestone
      rw [hget', Milestone.eq_of_unmarked hsame]
      exact mark hr

/-- What every change of a course keeps, the course keeps. -/
theorem dossier_invariant_of_mem {P : Dossier → Prop} (id : MilestoneId)
    (change : ∀ {now x d d'}, x ∈ xs → Dossier.Change now id x d d' → P d → P d')
    (mark : ∀ {m mark rs}, P ⟨some m, rs⟩ → P ⟨some { m with criticalPath := mark }, rs⟩)
    (h : Course r xs r') (hr : P (r.dossier id)) : P (r'.dossier id) := by
  have hend := h.dossier_invariant id (P := fun d rest => (∀ x ∈ rest, x ∈ xs) ∧ P d)
    (fun hchange ⟨hrest, hd⟩ =>
      ⟨fun y hy => hrest y (List.mem_cons_of_mem _ hy),
        change (hrest _ List.mem_cons_self) hchange hd⟩)
    (fun ⟨hrest, hd⟩ => ⟨hrest, mark hd⟩) ⟨fun _ hx => hx, hr⟩
  exact hend.2

end Course

end ContractRecords

/-- The result is a refusal. -/
def Outcome.isRefused {ε α : Type} : Outcome ε α → Bool
  | .error (.refused _) => true
  | _ => false

namespace Planner

/-- The planner accepts a batch if it does not refuse it.  A batch that a fault stops while the
critical marks are set was accepted before. -/
def accepts (p : Planner) (b : Batch) (now : Instant) : Bool :=
  !((applyBatch b now).on p).1.isRefused

end Planner

/-- The changes that an operation makes to a contract. -/
def Operation.changes (p : Planner) (c : ContractId) : Operation → List Mutation
  | batch b now => if b.contractId = c ∧ p.accepts b now = true then b.mutations else []
  | sync _ | schedule _ | outage _ | lapse _ | rehash _ => []

namespace Planner

/-- The changes that a run makes to a contract, in their order. -/
def changes (c : ContractId) : Planner → List Operation → List Mutation
  | _, [] => []
  | p, o :: os => o.changes p c ++ changes c (o.after p) os

variable {p q : Planner}

/-- A batch makes no changes but its own. -/
theorem mem_mutations_of_mem_changes {b : Batch} {now : Instant} {c : ContractId}
    {x : Mutation} (hx : x ∈ (Operation.batch b now).changes p c) : x ∈ b.mutations := by
  rw [Operation.changes] at hx
  split at hx
  · exact hx
  · cases hx

theorem afterAll_append (p : Planner) (os os' : List Operation) :
    p.afterAll (os ++ os') = (p.afterAll os).afterAll os' := List.foldl_append

/-- A batch is a course through its changes, or changes nothing if it is refused. -/
theorem BatchEnds.course {b : Batch} {now : Instant} {result : Outcome PlannerError BatchOutcome}
    (h : BatchEnds p b now result q) :
    ContractRecords.Course (p.store.records b.contractId)
      (if result.isRefused then [] else b.parts) (q.store.records b.contractId) := by
  have hplanned : ∀ {d e r}, (p.store.draft b).plan b now = .ok (d, e) →
      (p.store.records b.contractId).applyAll e.writes = .ok r →
      ContractRecords.Course (p.store.records b.contractId) b.parts r := by
    intro d e r hplan hr
    rw [← p.store.records_draft b] at hr ⊢
    exact .of_steps (Draft.steps_of_plan hplan) hr
  have hstored : ∀ {d e s}, (p.store.draft b).plan b now = .ok (d, e) →
      p.store.apply b.contractId e.writes = .ok s →
      ContractRecords.Course (p.store.records b.contractId) b.parts (s.records b.contractId) := by
    intro d e s hplan happly
    obtain ⟨r, hr, hrecords⟩ := Store.records_of_apply happly
    rw [hrecords, if_pos rfl]
    exact hplanned hplan hr
  have hmarked : ∀ {s result q}, SyncEnds (p.stored b.contractId s) b.contractId result q →
      ContractRecords.Course (s.records b.contractId) [] (q.store.records b.contractId) := by
    intro s result q h
    refine .of_sameButMarks (h.sameButMarks ?_).2
    rw [memory_stored, Memory.get?_forget, if_pos rfl]
  cases h with
  | offline => exact .refl _
  | rejected => exact .refl _
  | refused => exact .refl _
  | idle _ hplan hnone => exact hplanned hplan (by rw [hnone]; rfl)
  | committed _ hplan happly => exact hstored hplan happly
  | marked _ hplan happly _ hsync =>
    have hcourse := (hstored hplan happly).trans (hmarked hsync)
    rwa [List.append_nil] at hcourse
  | fault _ hplan happly _ hsync =>
    have hcourse := (hstored hplan happly).trans (hmarked hsync)
    rwa [List.append_nil] at hcourse

/-- Other contracts are left alone. -/
theorem BatchEnds.records_of_ne {b : Batch} {now : Instant}
    {result : Outcome PlannerError BatchOutcome} (h : BatchEnds p b now result q) {c : ContractId}
    (hc : c ≠ b.contractId) : q.store.records c = p.store.records c := by
  have hstored : ∀ {ws s}, p.store.apply b.contractId ws = .ok s →
      s.records c = p.store.records c := by
    intro ws s happly
    obtain ⟨r, -, hrecords⟩ := Store.records_of_apply happly
    rw [hrecords, if_neg hc.symm]
  have hmarked : ∀ {s result q}, SyncEnds (p.stored b.contractId s) b.contractId result q →
      q.store.records c = s.records c := by
    intro s result q h
    refine (h.sameButMarks ?_).1 c hc
    rw [memory_stored, Memory.get?_forget, if_pos rfl]
  cases h with
  | offline => rfl
  | rejected => rfl
  | refused => rfl
  | idle => rfl
  | committed _ _ happly => exact hstored happly
  | marked _ _ happly _ hsync => exact (hmarked hsync).trans (hstored happly)
  | fault _ _ happly _ hsync => exact (hmarked hsync).trans (hstored happly)

/-- A batch is a course of every contract through the changes that it makes there. -/
theorem course_batch (p : Planner) (b : Batch) (now : Instant) (c : ContractId) :
    ContractRecords.Course (p.store.records c)
      (((Operation.batch b now).changes p c).flatMap Mutation.parts)
      (((Operation.batch b now).after p).store.records c) := by
  have hends := batchEnds p b now
  rw [Operation.changes, Operation.after, accepts]
  by_cases hc : b.contractId = c
  · subst hc
    have hcourse := hends.course
    cases hrefused : ((applyBatch b now).on p).1.isRefused with
    | true =>
      rw [hrefused] at hcourse
      simp only [Bool.not_true, Bool.false_eq_true, and_false, if_false]
      exact hcourse
    | false =>
      rw [hrefused] at hcourse
      simp only [Bool.not_false, and_self, if_true]
      exact hcourse
  · rw [if_neg fun h => hc h.1, hends.records_of_ne (Ne.symm hc)]
    exact .refl _

namespace Truthful

theorem of_syncEnds (hp : p.Truthful) {c : ContractId} {result : Outcome PlannerError Nat}
    (h : SyncEnds p c result q) : q.Truthful := by
  cases h with
  | failed h => exact hp.of_scheduleEnds h
  | settled h => exact hp.of_scheduleEnds h
  | refused h => exact hp.of_scheduleEnds h
  | marked h happly => exact (hp.of_scheduleEnds h).stored happly

theorem of_batchEnds (hp : p.Truthful) {b : Batch} {now : Instant}
    {result : Outcome PlannerError BatchOutcome} (h : BatchEnds p b now result q) :
    q.Truthful := by
  cases h with
  | offline => exact hp
  | rejected => exact hp
  | refused => exact hp
  | idle => exact hp
  | committed _ _ happly => exact hp.stored happly
  | marked _ _ happly _ hsync => exact (hp.stored happly).of_syncEnds hsync
  | fault _ _ happly _ hsync => exact (hp.stored happly).of_syncEnds hsync

/-- Whatever is asked of a planner, what it remembers is the schedule of the records. -/
theorem after (hp : p.Truthful) (o : Operation) : (o.after p).Truthful := by
  cases o with
  | batch b now => exact hp.of_batchEnds (batchEnds p b now)
  | sync c => exact hp.of_syncEnds (syncEnds p c)
  | schedule c => exact hp.of_scheduleEnds (scheduleEnds p c)
  | outage offline => exact hp
  | lapse cs => exact fun c s hs => hp c s (Memory.get?_of_lose hs)
  | rehash hashing => exact hp

theorem afterAll (hp : p.Truthful) (os : List Operation) : (p.afterAll os).Truthful :=
  afterAll_invariant (fun _ o hp => hp.after o) hp os

/-- Every operation is a course of every contract through the changes that it makes there. -/
theorem course_after (hp : p.Truthful) (o : Operation) (c : ContractId) :
    ContractRecords.Course (p.store.records c) ((o.changes p c).flatMap Mutation.parts)
      ((o.after p).store.records c) := by
  cases o with
  | batch b now => exact course_batch p b now c
  | sync c' =>
    obtain ⟨hothers, hmarks⟩ := (syncEnds p c').sameButMarks_of_remembered (hp c')
    by_cases hc : c = c'
    · subst hc
      exact .of_sameButMarks hmarks
    · rw [Operation.after, hothers c hc]
      exact .refl _
  | schedule c' =>
    rw [Operation.after, (scheduleEnds p c').store_eq]
    exact .refl _
  | outage offline => exact .refl _
  | lapse cs => exact .refl _
  | rehash hashing => exact .refl _

/-- A run is a course of every contract through the changes that it makes there. -/
theorem course_afterAll (hp : p.Truthful) (os : List Operation) (c : ContractId) :
    ContractRecords.Course (p.store.records c) ((p.changes c os).flatMap Mutation.parts)
      ((p.afterAll os).store.records c) := by
  induction os generalizing p with
  | nil => exact .refl _
  | cons o rest ih =>
    rw [changes, List.flatMap_append]
    exact (hp.course_after o c).trans (ih (hp.after o))

end Truthful

end Planner

end Milestones
