import Milestones.Proofs.Planner.Requests

/-!
# Operations that do not show what is remembered

Whatever a truthful planner recalls is the schedule of the records as they are.  So two planners
that differ in what they recall go the same way through every operation.  In the middle of a
transaction this is not so: between the writes and the forgetting, a memory may be out of date.  The
two are therefore taken as one step.

An operation is put together from others, and which relation of planners they keep does not matter
for that.  It is enough that the relation is kept by a question for a schedule and by a transaction
with the forgetting after it.

## Main definitions

* `Planner.Agree`: planners on one store that differ only in what they remember.
* `Planner.Run.Respects`: operations that end alike on related planners.
* `Planner.Interchangeable`: relations that schedules and transactions keep.

## Main statements

* `Planner.Run.Respects.bind`, `Planner.Run.Respects.mapM`: how such operations are put together.
* `Planner.Interchangeable.batch`, `Planner.Interchangeable.sync`, `Planner.Interchangeable.about`:
  what follows for changes and questions.
* `Request.respects_agree`: no request shows what is remembered.
-/

namespace Milestones

open Outcome

/-- The settings without room for schedules. -/
def Settings.withoutMemory (settings : Settings) : Settings := { settings with cacheCapacity := 0 }

/-- The size of the memory is not among the settings that matter for an answer. -/
theorem Question.answer_withoutMemory (x : Question) (settings : Settings) (s : Schedule) :
    x.answer settings.withoutMemory s = x.answer settings s := by
  cases x <;> rfl

namespace Planner

/-- The planner with another memory. -/
def recalling (p : Planner) (memory : Memory) : Planner := { p with memory := memory }

variable {α β : Type} {p q : Planner}

/-! ## Planners that agree -/

/-- Two planners on one store that can be reached.  Their settings differ only in the size of the
memory, and neither remembers anything that is not true. -/
structure Agree (p q : Planner) : Prop where
  store_eq : q.store = p.store
  settings_eq : q.settings.withoutMemory = p.settings.withoutMemory
  online : p.store.offline = false
  truthful_left : p.Truthful
  truthful_right : q.Truthful

namespace Agree

theorem online_right (h : p.Agree q) : q.store.offline = false := h.store_eq ▸ h.online

/-- The hash maps of both may be arranged in another way. -/
theorem rehash (h : p.Agree q) (hashing : Hashing) :
    (p.rehash hashing).Agree (q.rehash hashing) where
  store_eq := congrArg (Store.rehash · hashing) h.store_eq
  settings_eq := h.settings_eq
  online := h.online
  truthful_left := h.truthful_left
  truthful_right := h.truthful_right

/-- The first planner may recall something else that is true. -/
theorem recalling (h : p.Agree q) {memory : Memory} (hmemory : (p.recalling memory).Truthful) :
    (p.recalling memory).Agree q :=
  ⟨h.store_eq, h.settings_eq, h.online, hmemory, h.truthful_right⟩

/-- Both may take the same transaction. -/
theorem stored (h : p.Agree q) {c : ContractId} {ws : List Write} {s : Store}
    (happly : p.store.apply c ws = .ok s) : (p.stored c s).Agree (q.stored c s) where
  store_eq := rfl
  settings_eq := h.settings_eq
  online := by
    obtain ⟨hon, r, -, rfl⟩ := Store.apply_eq_ok.1 happly
    exact hon
  truthful_left := h.truthful_left.stored happly
  truthful_right := h.truthful_right.stored (h.store_eq.symm ▸ happly)

end Agree

/-- A truthful planner answers a question for a schedule from the records. -/
theorem Truthful.scheduleEnds_eq (hp : p.Truthful) (hon : p.store.offline = false)
    {c : ContractId} {result : Outcome PlannerError Schedule} (h : ScheduleEnds p c result q) :
    result = (p.store.records c).schedule.mapError (Failure.map .schedule) := by
  cases h with
  | remembered h => rw [hp c _ h]; rfl
  | offline _ h => cases hon.symm.trans h
  | failed _ _ h => rw [h]; rfl
  | computed _ _ h => rw [h]; rfl

/-- A remembered schedule has the order of work of the graph of the records. -/
theorem Truthful.exists_graph (hp : p.Truthful) (hon : p.store.offline = false) {c : ContractId}
    {s : Schedule} (h : p.memory.get? c = some s) :
    ∃ g, p.store.graph c = .ok g ∧ g.workOrder = .ok s.order := by
  obtain ⟨g, hg, hs⟩ := bind_eq_ok.1 (hp c s h)
  refine ⟨g, ?_, (Graph.compute_eq_ok hs).2.1⟩
  rw [Store.graph, hon, ofExcept_eq_ok.1 hg]
  rfl

/-- A truthful planner knows of a cycle what the graph of the records shows. -/
theorem Truthful.on_isAcyclic (hp : p.Truthful) (hon : p.store.offline = false) (c : ContractId) :
    (isAcyclic c).on p = ((p.store.graph c).map Graph.isAcyclic, p) := by
  rw [Planner.on_isAcyclic]
  cases hmemory : p.memory.get? c with
  | none => rfl
  | some s =>
    obtain ⟨g, hg, horder⟩ := hp.exists_graph hon hmemory
    have hacyclic : g.isAcyclic = true := by
      rw [Graph.isAcyclic, horder]
      rfl
    simp [hg, hacyclic, Except.map]

/-- A truthful planner has the order of work of the graph of the records. -/
theorem Truthful.on_order (hp : p.Truthful) (hon : p.store.offline = false) (c : ContractId) :
    (order c).on p =
      (do
        let g ← p.store.graph c
        (Outcome.ofExcept (fun r => .schedule (.cycle r)) g.workOrder).map WorkOrder.ids, p) := by
  rw [Planner.on_order]
  cases hmemory : p.memory.get? c with
  | none => rfl
  | some s =>
    obtain ⟨g, hg, horder⟩ := hp.exists_graph hon hmemory
    rw [hg]
    refine Prod.ext ?_ rfl
    change Except.ok s.order.ids =
      (Outcome.ofExcept (fun r => PlannerError.schedule (.cycle r)) g.workOrder).map WorkOrder.ids
    rw [horder]
    rfl

/-! ## Operations that end alike -/

namespace Run

variable {R : Planner → Planner → Prop}

/-- The operation ends alike on related planners, and they are still related afterwards. -/
def Respects (R : Planner → Planner → Prop) (x : Run α) : Prop :=
  ∀ p q : Planner, R p q → (x.on p).1 = (x.on q).1 ∧ R (x.on p).2 (x.on q).2

namespace Respects

theorem pure (a : α) : Respects R (pure a) := fun _ _ h => ⟨rfl, h⟩

theorem throw (e : Failure PlannerError) : Respects R (throw e : Run α) := fun _ _ h => ⟨rfl, h⟩

theorem ofExcept {ε : Type} (f : ε → PlannerError) (x : Except ε α) :
    Respects R (ofExcept f x) := by
  intro p q h
  rw [on_ofExcept, on_ofExcept]
  exact ⟨rfl, h⟩

theorem ofOutcome {ε : Type} (f : ε → PlannerError) (x : Outcome ε α) :
    Respects R (ofOutcome f x) := by
  intro p q h
  rw [on_ofOutcome, on_ofOutcome]
  exact ⟨rfl, h⟩

theorem bind {x : Run α} {f : α → Run β} (hx : Respects R x) (hf : ∀ a, Respects R (f a)) :
    Respects R (x >>= f) := by
  intro p q h
  obtain ⟨hresult, hafter⟩ := hx p q h
  cases hp : x.on p with
  | mk result p' =>
    cases hq : x.on q with
    | mk result' q' =>
      rw [hp, hq] at hresult hafter
      cases hresult
      cases result with
      | error e =>
        rw [on_bind_of_error hp, on_bind_of_error hq]
        exact ⟨rfl, hafter⟩
      | ok a =>
        rw [on_bind_of_ok hp, on_bind_of_ok hq]
        exact hf a p' q' hafter

theorem tryCatch {x : Run α} {handle : Failure PlannerError → Run α} (hx : Respects R x)
    (hhandle : ∀ e, Respects R (handle e)) : Respects R (tryCatch x handle) := by
  intro p q h
  obtain ⟨hresult, hafter⟩ := hx p q h
  cases hp : x.on p with
  | mk result p' =>
    cases hq : x.on q with
    | mk result' q' =>
      rw [hp, hq] at hresult hafter
      cases hresult
      cases result with
      | error e =>
        rw [on_tryCatch_of_error hp, on_tryCatch_of_error hq]
        exact hhandle e p' q' hafter
      | ok a =>
        rw [on_tryCatch_of_ok hp, on_tryCatch_of_ok hq]
        exact ⟨rfl, hafter⟩

/-- What an operation does may depend on the planner, if related planners do the same. -/
theorem get_bind {f : Planner → Run α} (hsame : ∀ p q : Planner, R p q → f p = f q)
    (hf : ∀ p, Respects R (f p)) : Respects R (get >>= f) := by
  intro p q h
  rw [on_bind_get, on_bind_get, ← hsame p q h]
  exact hf p p q h

theorem mapM {f : α → Run β} (hf : ∀ a, Respects R (f a)) (as : List α) :
    Respects R (as.mapM f) := by
  induction as with
  | nil => exact pure []
  | cons a rest ih =>
    rw [List.mapM_cons]
    exact (hf a).bind fun b => ih.bind fun bs => pure (b :: bs)

end Respects

end Run

/-- Planners that are so related have the same settings, apart from the size of the memory, and
neither schedules nor transactions tell them apart. -/
structure Interchangeable (R : Planner → Planner → Prop) : Prop where
  settings_eq : ∀ {p q}, R p q → q.settings.withoutMemory = p.settings.withoutMemory
  schedule : ∀ c, Run.Respects R (schedule c)
  commit_forget : ∀ {α : Type} (c : ContractId) (ws : List Write) {f : Unit → Run α},
    (∀ u, Run.Respects R (f u)) → Run.Respects R (Run.commit c ws >>= fun _ => forget c >>= f)
  clear : Run.Respects R forgetAll
  forget : ∀ c, Run.Respects R (forget c)

/-- What is left to do after a batch was planned. -/
def carryOut (b : Batch) (e : Effect) : Run BatchOutcome :=
  if e.writes.isEmpty then pure (.ofEffect e)
  else do
    Run.commit b.contractId e.writes
    forget b.contractId
    if (← get).settings.persistCriticalFlags && (BatchOutcome.ofEffect e).scheduleChanged then
      attemptSync b.contractId
    pure (.ofEffect e)

theorem applyBatch_eq (b : Batch) (now : Instant) : applyBatch b now = (do
    let d ← draftFor b
    let planned ← Run.ofExcept (fun (index, r) => .rejected index r) (d.plan b now)
    carryOut b planned.2) := rfl

namespace Interchangeable

variable {R : Planner → Planner → Prop} (hR : Interchangeable R)
include hR

theorem persistCriticalFlags_eq (h : R p q) :
    q.settings.persistCriticalFlags = p.settings.persistCriticalFlags := by
  have := congrArg Settings.persistCriticalFlags (hR.settings_eq h)
  exact this

theorem scheduleStart_eq (h : R p q) : q.settings.scheduleStart = p.settings.scheduleStart := by
  have := congrArg Settings.scheduleStart (hR.settings_eq h)
  exact this

theorem trendBucket_eq (h : R p q) : q.settings.trendBucket = p.settings.trendBucket := by
  have := congrArg Settings.trendBucket (hR.settings_eq h)
  exact this

theorem sync (c : ContractId) : Run.Respects R (syncCritical c) := by
  refine (hR.schedule c).bind fun s => ?_
  simp only []
  split
  · exact hR.commit_forget c _ fun _ => .pure _
  · exact .pure _

theorem batch (b : Batch) (e : Effect) : Run.Respects R (carryOut b e) := by
  rw [carryOut]
  split
  · exact .pure _
  · refine hR.commit_forget b.contractId _ fun _ => .get_bind (fun p q h => ?_) fun p => ?_
    · rw [hR.persistCriticalFlags_eq h]
    · split
      · refine .bind (.tryCatch ((hR.sync b.contractId).bind fun _ => .pure _) fun e => ?_)
          fun _ => .pure _
        cases e with
        | refused e => exact .pure _
        | fault f => exact .throw _
      · exact .pure _

theorem attemptTimeline (c : ContractId) : Run.Respects R (attemptTimeline c) := by
  have htimeline : Run.Respects R (timeline c) := by
    refine (hR.schedule c).bind fun s => .bind (.get_bind (fun p q h => ?_) fun p => .pure _)
      fun _ => .pure _
    rw [hR.scheduleStart_eq h]
  intro p q h
  obtain ⟨hresult, hafter⟩ := htimeline p q h
  rw [on_attemptTimeline, on_attemptTimeline, hresult]
  exact ⟨rfl, hafter⟩

/-- A question asks for a schedule, and its answer does not depend on the size of the memory. -/
theorem about (c : ContractId) (x : Question) : Run.Respects R (x.run c) := by
  intro p q h
  obtain ⟨hschedule, hafter⟩ := hR.schedule c p q h
  have hanswer : ∀ s, x.answer q.settings s = x.answer p.settings s := by
    intro s
    rw [← x.answer_withoutMemory q.settings, hR.settings_eq h, x.answer_withoutMemory]
  rw [x.on_run, x.on_run, ← hschedule]
  simp only [hanswer]
  exact ⟨trivial, hafter⟩

end Interchangeable

/-! ## Requests -/

namespace Agree

/-- An operation that changes nothing and answers from the store and the settings. -/
theorem respects_of_on_eq {x : Run α} {answer : Planner → Outcome PlannerError α}
    (hx : ∀ p : Planner, p.Truthful → p.store.offline = false → x.on p = (answer p, p))
    (hanswer : ∀ p q : Planner, p.Agree q → answer p = answer q) : Run.Respects Agree x := by
  intro p q h
  rw [hx p h.truthful_left h.online, hx q h.truthful_right h.online_right]
  exact ⟨hanswer p q h, h⟩

/-- Planners that agree may both be made to forget. -/
theorem respects_of_forgetting {x : Run α} (a : α) (drop : Memory → Memory)
    (hx : ∀ p : Planner, x.on p = (.ok a, { p with memory := drop p.memory }))
    (hdrop : ∀ m c s, (drop m).get? c = some s → m.get? c = some s) : Run.Respects Agree x := by
  intro p q h
  rw [hx p, hx q]
  exact ⟨rfl, h.store_eq, h.settings_eq, h.online,
    fun c s hs => h.truthful_left c s (hdrop _ c s hs),
    fun c s hs => h.truthful_right c s (hdrop _ c s hs)⟩

/-- Neither schedules nor transactions show what is remembered. -/
theorem interchangeable : Interchangeable Agree where
  settings_eq := Agree.settings_eq
  schedule c p q h := by
    have hp := scheduleEnds p c
    have hq := scheduleEnds q c
    refine ⟨?_, ?_, ?_, ?_, h.truthful_left.of_scheduleEnds hp, h.truthful_right.of_scheduleEnds hq⟩
    · rw [h.truthful_left.scheduleEnds_eq h.online hp,
        h.truthful_right.scheduleEnds_eq h.online_right hq, h.store_eq]
    · rw [hp.store_eq, hq.store_eq, h.store_eq]
    · rw [hp.settings_eq, hq.settings_eq, h.settings_eq]
    · rw [hp.store_eq]
      exact h.online
  commit_forget c ws f hf p q h := by
    cases happly : p.store.apply c ws with
    | error e =>
      rw [Run.on_bind_of_error (on_commit_of_error happly),
        Run.on_bind_of_error (on_commit_of_error (h.store_eq.symm ▸ happly))]
      exact ⟨rfl, h⟩
    | ok s =>
      rw [Run.on_bind_of_ok (on_commit_of_ok happly), Run.on_bind_of_ok (on_forget _ c),
        Run.on_bind_of_ok (on_commit_of_ok (h.store_eq.symm ▸ happly)),
        Run.on_bind_of_ok (on_forget _ c)]
      exact hf () _ _ (h.stored happly)
  clear := respects_of_forgetting () Memory.clear (fun _ => rfl) fun m c s h => nomatch h
  forget c := respects_of_forgetting () (fun m => m.forget c) (fun _ => rfl) fun m c' s h => by
    rw [Memory.get?_forget] at h
    split at h
    · cases h
    · exact h

end Agree

end Planner

namespace Request

open Planner

/-- Every request ends alike on planners that agree. -/
theorem respects_agree (r : Request) : Run.Respects Agree r.run := by
  have hagree := Agree.interchangeable
  cases r with
  | about c x => exact hagree.about c x
  | isAcyclic c =>
    refine .bind (Agree.respects_of_on_eq (fun _ hp hon => hp.on_isAcyclic hon c) ?_)
      fun _ => .pure _
    exact fun p q h => by rw [h.store_eq]
  | order c =>
    refine .bind (Agree.respects_of_on_eq (fun _ hp hon => hp.on_order hon c) ?_) fun _ => .pure _
    exact fun p q h => by rw [h.store_eq]
  | timelines cs => exact (Run.Respects.mapM hagree.attemptTimeline cs).bind fun _ => .pure _
  | trend c now =>
    refine .bind (Agree.respects_of_on_eq (fun p _ _ => on_trend c now p) ?_) fun _ => .pure _
    exact fun p q h => by rw [h.store_eq, hagree.trendBucket_eq h]
  | batch b now =>
    have hdraft : Run.Respects Agree (draftFor b) :=
      Agree.respects_of_on_eq (fun _ _ hon => on_draftFor_online hon b) fun p q h => by
        rw [h.store_eq]
    rw [run, applyBatch_eq]
    exact .bind (hdraft.bind fun d => .bind (.ofExcept _ _) fun planned => hagree.batch b planned.2)
      fun _ => .pure _
  | sync c => exact (hagree.sync c).bind fun _ => .pure _
  | forget c => exact (hagree.forget c).bind fun _ => .pure _
  | forgetAll => exact hagree.clear.bind fun _ => .pure _

end Request

end Milestones
