import Milestones.Proofs.Change.Planning

/-!
# What planning reads of the notes

A draft has notes which milestones belong to other contracts.  The notes are taken before planning
and no change adds to them.  A change looks up the milestones that it takes to exist and the one
that it creates, and nothing else, so other notes that say the same about these do as well.  Where
they name another contract, a rejection names that one, and nothing else is different.

This is what lets a batch be planned in parts.  The second part is planned with notes of its own,
and they have to say the same as those of the whole only where the second part asks.

## Main definitions

* `Draft.noting`: a draft with other notes.
* `Mutation.asked`: the milestones of which a change asks where they belong.
* `Draft.Concurs`: notes that say the same of a milestone, up to a translation of rejections.

## Main statements

* `Draft.mutate_noting`, `Draft.mapError_planFrom_noting`: notes that concur where they are asked.
* `Draft.planFrom_append`: changes in two parts.
-/

namespace Milestones

open Outcome

/-- The milestones of which a change asks whether another contract has them. -/
def Mutation.asked : Mutation → List MilestoneId
  | createMilestone m => [m.id]
  | x => x.referenced

/-- A milestone that a change asks about is one that it takes to exist, or creates. -/
theorem Mutation.referenced_or_created_of_mem_asked {x : Mutation} {id : MilestoneId}
    (h : id ∈ x.asked) : id ∈ x.referenced ∨ ∃ m, x = .createMilestone m ∧ m.id = id := by
  cases x with
  | createMilestone m => exact .inr ⟨m, rfl, (List.mem_singleton.1 h).symm⟩
  | _ => exact .inl h

namespace Draft

/-- The draft with other notes. -/
def noting (notes : List (MilestoneId × ContractId)) (d : Draft) : Draft :=
  { d with elsewhere := notes }

/-- What was planned, with other notes in the draft. -/
def resultNoting (notes : List (MilestoneId × ContractId)) (planned : Draft × Effect) :
    Draft × Effect :=
  (planned.1.noting notes, planned.2)

/-- What notes say about a milestone of a batch on a contract: why it is refused, up to a
translation of rejections. -/
def refusal (f : Rejection → Rejection) (c : ContractId) (notes : List (MilestoneId × ContractId))
    (id : MilestoneId) : Option Rejection :=
  (notes.lookup id).map fun actual => f (.contractMismatch id c actual)

/-- Other notes say the same as those of the draft. -/
def Concurs (f : Rejection → Rejection) (notes : List (MilestoneId × ContractId)) (d : Draft)
    (id : MilestoneId) : Prop :=
  refusal f d.contractId notes id = refusal f d.contractId d.elsewhere id

variable {f : Rejection → Rejection} {notes : List (MilestoneId × ContractId)} {d : Draft}
  {now : Instant}

theorem Concurs.of_lookup {id : MilestoneId} (h : notes.lookup id = d.elsewhere.lookup id) :
    Concurs f notes d id := by
  rw [Concurs, refusal, refusal, h]

theorem Concurs.isSome_eq {id : MilestoneId} (h : Concurs f notes d id) :
    (notes.lookup id).isSome = (d.elsewhere.lookup id).isSome := by
  have := congrArg Option.isSome h
  rwa [refusal, refusal, Option.isSome_map, Option.isSome_map] at this

/-! ## One change -/

theorem find_noting {id : MilestoneId} (h : Concurs f notes d id) :
    ((d.noting notes).find id).mapError f = (d.find id).mapError f := by
  rw [Concurs, refusal, refusal] at h
  rw [find, find, noting]
  cases hnote : notes.lookup id with
  | none =>
    rw [hnote, Option.map_none, eq_comm, Option.map_eq_none_iff] at h
    rw [h]
  | some c =>
    rw [hnote, Option.map_some, eq_comm, Option.map_eq_some_iff] at h
    obtain ⟨c', hlookup, heq⟩ := h
    rw [hlookup]
    exact congrArg Except.error heq.symm

/-- A change of the milestone that stands under an identifier. -/
theorem find_bind_noting {id : MilestoneId} (h : Concurs f notes d id)
    {change change' : Milestone → Except Rejection (Draft × Effect)}
    (hchange : ∀ m, change' m = (change m).map (resultNoting notes)) :
    ((d.noting notes).find id >>= change').mapError f =
      ((d.find id >>= change).map (resultNoting notes)).mapError f := by
  refine (mapError_bind_congr (find_noting h) fun _ => rfl).trans ?_
  cases d.find id with
  | error r => rfl
  | ok m => exact congrArg (Except.mapError f) (hchange m)

theorem setStatus_noting (status : Status) {id : MilestoneId} (h : Concurs f notes d id) :
    (setStatus status now (d.noting notes) id).mapError f =
      ((setStatus status now d id).map (resultNoting notes)).mapError f := by
  refine find_bind_noting h fun m => ?_
  split
  · rfl
  · cases m.moveTo status now <;> rfl

theorem setProgress_noting {u : ProgressUpdate} (h : Concurs f notes d u.milestoneId) :
    (setProgress now (d.noting notes) u).mapError f =
      ((setProgress now d u).map (resultNoting notes)).mapError f := by
  refine find_bind_noting h fun m => ?_
  cases m.recordProgress u.percentageComplete now <;> rfl

theorem checkDependency_noting {e : Dependency} (hdependent : Concurs f notes d e.milestoneId)
    (hprerequisite : Concurs f notes d e.dependsOnId) :
    ((d.noting notes).checkDependency e).mapError f = (d.checkDependency e).mapError f :=
  mapError_bind_congr (find_noting hdependent) fun _ =>
    mapError_bind_congr (find_noting hprerequisite) fun _ => rfl

/-- No step changes what other notes say. -/
theorem Concurs.of_step {id : MilestoneId} (h : Concurs f notes d id) {d' : Draft} {x : Mutation}
    {ws : List Write} (hstep : Step now d x ws d') : Concurs f notes d' id := by
  rwa [Concurs, hstep.contractId_eq, hstep.elsewhere_eq]

/-- Several changes of one kind, each about one milestone. -/
theorem each_noting {α : Type} {change : Draft → α → Except Rejection (Draft × Effect)}
    {label : α → Mutation} (key : α → MilestoneId)
    (hstep : ∀ d a d' e, change d a = .ok (d', e) → Step now d (label a) e.writes d')
    (hchange : ∀ d a, Concurs f notes d (key a) → (change (d.noting notes) a).mapError f =
      ((change d a).map (resultNoting notes)).mapError f)
    {as : List α} (h : ∀ a ∈ as, Concurs f notes d (key a)) :
    (each change (d.noting notes) as).mapError f =
      ((each change d as).map (resultNoting notes)).mapError f := by
  induction as generalizing d with
  | nil => rfl
  | cons a rest ih =>
    rw [each, each]
    refine mapError_bind_map_comm (hchange d a (h a List.mem_cons_self)) fun planned hfirst => ?_
    exact mapError_bind_map_comm (ih fun a' ha' =>
      (h a' (List.mem_cons_of_mem _ ha')).of_step (hstep _ _ _ _ hfirst)) fun _ _ => rfl

/-- A change does the same with notes that agree where it asks. -/
theorem mutate_noting {x : Mutation} (h : ∀ id ∈ x.asked, Concurs f notes d id) :
    ((d.noting notes).mutate now x).mapError f =
      ((d.mutate now x).map (resultNoting notes)).mapError f := by
  cases x with
  | setStatus ids status =>
    exact each_noting (fun id => id) (fun _ _ _ _ h => step_of_setStatus h)
      (fun _ _ h => setStatus_noting status h) h
  | setProgress updates =>
    exact each_noting ProgressUpdate.milestoneId (fun _ _ _ _ h => step_of_setProgress h)
      (fun _ _ h => setProgress_noting h) fun u hu => h _ (List.mem_map_of_mem hu)
  | createMilestone m =>
    have hm := (h m.id List.mem_cons_self).isSome_eq
    simp only [mutate, noting, hm]
    split
    · rfl
    split
    · rfl
    cases checkDuration m.id m.estimatedDuration <;> rfl
  | updateMilestone id edit =>
    rw [mutate, mutate]
    cases checkDuration id edit.estimatedDuration with
    | error r => rfl
    | ok u => exact find_bind_noting (h id List.mem_cons_self) fun m => rfl
  | deleteMilestone id => exact find_bind_noting (h id List.mem_cons_self) fun m => rfl
  | addDependency e =>
    have hcheck := checkDependency_noting (h e.milestoneId List.mem_cons_self)
      (h e.dependsOnId (List.mem_cons_of_mem _ List.mem_cons_self))
    rw [mutate, mutate]
    refine (mapError_bind_congr hcheck fun _ => rfl).trans ?_
    cases d.checkDependency e <;> rfl
  | removeDependency id =>
    rw [mutate, mutate, noting]
    cases d.dependencies.contains id <;> rfl

/-! ## Several changes -/

theorem elsewhere_of_planFrom {d' : Draft} {xs : List Mutation} {index : Nat} {e : Effect}
    (h : planFrom now index d xs = .ok (d', e)) : d'.elsewhere = d.elsewhere :=
  (steps_of_planFrom h).invariant (P := fun d' => d'.elsewhere = d.elsewhere)
    (fun hstep hd => hstep.elsewhere_eq.trans hd) rfl

/-- So does a batch. -/
theorem mapError_planFrom_noting {xs : List Mutation} {index : Nat}
    (h : ∀ x ∈ xs, ∀ id ∈ x.asked, Concurs f notes d id) :
    (planFrom now index (d.noting notes) xs).mapError (fun rejected => (rejected.1, f rejected.2)) =
      ((planFrom now index d xs).map (resultNoting notes)).mapError
        fun rejected => (rejected.1, f rejected.2) := by
  induction xs generalizing d index with
  | nil => rfl
  | cons x rest ih =>
    rw [planFrom, planFrom]
    refine mapError_bind_map_comm (h := resultNoting notes) ?_ fun planned hfirst => ?_
    · have hx : ((d.noting notes).mutate now x).mapError f =
          ((d.mutate now x).map (resultNoting notes)).mapError f :=
        mutate_noting (h x List.mem_cons_self)
      have hindex := congrArg (Except.mapError (Prod.mk index)) hx
      cases hother : (d.noting notes).mutate now x <;> cases hown : d.mutate now x <;>
        rwa [hother, hown] at hindex
    · have hsteps := steps_of_mutate (mapError_eq_ok.1 hfirst)
      exact mapError_bind_map_comm (ih fun x' hx' id hid =>
        hsteps.invariant (P := fun d' => Concurs f notes d' id) (fun hstep hd => hd.of_step hstep)
          (h x' (List.mem_cons_of_mem _ hx') id hid)) fun _ _ => rfl

/-- Where the notes themselves agree, so do the rejections. -/
theorem planFrom_noting {xs : List Mutation} {index : Nat}
    (h : ∀ x ∈ xs, ∀ id ∈ x.asked, notes.lookup id = d.elsewhere.lookup id) :
    planFrom now index (d.noting notes) xs =
      (planFrom now index d xs).map (resultNoting notes) := by
  have hplan := @mapError_planFrom_noting id notes d now xs index
    fun x hx id hid => Concurs.of_lookup (h x hx id hid)
  have hsame : ∀ y : Except (Nat × Rejection) (Draft × Effect),
      y.mapError (fun rejected => (rejected.1, id rejected.2)) = y := fun y => by cases y <;> rfl
  rwa [hsame, hsame] at hplan

end Draft

/-! ## Changes in two parts -/

namespace Effect

theorem nil_append (e : Effect) : ({} : Effect) ++ e = e := by
  change (⟨[] ++ e.writes, 0 + e.touched, 0 + e.cascaded, false || e.reschedules⟩ : Effect) = e
  simp

theorem append_assoc (a b c : Effect) : a ++ b ++ c = a ++ (b ++ c) := by
  change (⟨_ ++ _ ++ _, _ + _ + _, _ + _ + _, (_ || _) || _⟩ : Effect) =
    ⟨_ ++ _, _ + _, _ + _, _ || _⟩
  rw [List.append_assoc, Nat.add_assoc, Nat.add_assoc, Bool.or_assoc]
  rfl

end Effect

namespace Draft

variable {now : Instant} {index : Nat} {d : Draft} {xs : List Mutation}

/-- A rejection names a change of the list. -/
theorem lt_of_planFrom_eq_error {i : Nat} {r : Rejection}
    (h : planFrom now index d xs = .error (i, r)) : i < index + xs.length := by
  induction xs generalizing index d with
  | nil => cases h
  | cons x rest ih =>
    rw [List.length_cons]
    rcases bind_eq_error.1 h with h | ⟨planned, -, h⟩
    · obtain ⟨_, -, h⟩ := mapError_eq_error.1 h
      cases h
      omega
    · rcases bind_eq_error.1 h with h | ⟨_, -, h⟩
      · have := ih h
        omega
      · cases h

/-- The count may start later. -/
theorem planFrom_add (now : Instant) (k index : Nat) (d : Draft) (xs : List Mutation) :
    planFrom now (k + index) d xs =
      (planFrom now index d xs).mapError fun rejected => (k + rejected.1, rejected.2) := by
  induction xs generalizing index d with
  | nil => rfl
  | cons x rest ih =>
    rw [planFrom, planFrom]
    cases d.mutate now x with
    | error r => rfl
    | ok planned =>
      change (planFrom now (k + index + 1) planned.1 rest >>= _) =
        Except.mapError _ (planFrom now (index + 1) planned.1 rest >>= _)
      rw [Nat.add_assoc, ih]
      cases planFrom now (index + 1) planned.1 rest <;> rfl

/-- Changes in two parts are rejected where the first part is, or go on with the second part. -/
theorem planFrom_append (now : Instant) (index : Nat) (d : Draft) (xs ys : List Mutation) :
    planFrom now index d (xs ++ ys) = planFrom now index d xs >>= fun planned =>
      (planFrom now (index + xs.length) planned.1 ys).map fun rest =>
        (rest.1, planned.2 ++ rest.2) := by
  induction xs generalizing index d with
  | nil =>
    change planFrom now index d ys = Except.map _ (planFrom now index d ys)
    cases planFrom now index d ys with
    | error r => rfl
    | ok rest =>
      change _ = Except.ok (rest.1, ({} : Effect) ++ rest.2)
      rw [Effect.nil_append]
  | cons x rest ih =>
    rw [List.cons_append, planFrom, planFrom, List.length_cons, ← Nat.add_assoc,
      Nat.add_right_comm]
    cases d.mutate now x with
    | error r => rfl
    | ok first =>
      change (planFrom now (index + 1) first.1 (rest ++ ys) >>= _) =
        ((planFrom now (index + 1) first.1 rest >>= _) >>= _)
      rw [ih]
      cases planFrom now (index + 1) first.1 rest with
      | error r => rfl
      | ok second =>
        change (Except.map _ (planFrom now (index + 1 + rest.length) second.1 ys) >>= _) =
          Except.map _ (planFrom now (index + 1 + rest.length) second.1 ys)
        cases planFrom now (index + 1 + rest.length) second.1 ys with
        | error r => rfl
        | ok third =>
          exact congrArg (fun e => Except.ok (third.1, e)) (Effect.append_assoc _ _ _).symm

end Draft

end Milestones
