import Milestones.Proofs.Planner.Arrangement

/-!
# Memory makes no difference

A planner may forget a schedule at any time, and recall it later, as long as it recalls what it
remembered last and has not been made to forget since.  Nothing of this can be seen from outside:
all answers, and the store after each of them, are those of a planner that never remembers anything.

A schedule that comes back is still that of the records, because every request that changes the
records of a contract makes the planner forget it.

Some answers depend on how hash maps are arranged: the average of a trend, and which contract a
batch is told of if another one has the milestone.  The maps may be arranged in another way before
every request.  On maps that are arranged alike, the two planners give the same answers.  Where
those of the other planner are arranged in other ways, nothing but the order makes a difference.

## Main definitions

* `Request.Forgets`: the requests after which nothing is recalled of a contract.
* `Planner.Serves`: a run of requests on a planner whose memory comes and goes.

## Main statements

* `Request.records_eq_of_not_forgets`: what is not forgotten has not changed.
* `Planner.serves_eq_replies`: a run has the answers of a planner without a memory.
-/

namespace Milestones

open Outcome

namespace Request

/-! ## What is forgotten -/

/-- The request makes the planner forget a contract: until its schedule is asked for again, nothing
is recalled of it. -/
def Forgets (r : Request) (result : Outcome PlannerError Reply) (c : ContractId) : Prop :=
  match r, result with
  | batch b _, .ok (.batch o) => c = b.contractId ∧ o.operations ≠ 0
  | batch b _, .error (.fault _) => c = b.contractId
  | sync c', .ok (.count n) => c = c' ∧ n ≠ 0
  | forget c', _ => c = c'
  | forgetAll, _ => True
  | _, _ => False

end Request

/-- A transaction leaves other contracts alone, and its own if it writes nothing. -/
theorem Store.records_eq_of_apply {s s' : Store} {c c' : ContractId} {ws : List Write}
    (h : s.apply c ws = .ok s') (hnone : c' = c → ws = []) : s'.records c' = s.records c' := by
  obtain ⟨r, hr, hrecords⟩ := Store.records_of_apply h
  rw [hrecords]
  split
  · rename_i hc
    rw [hnone hc.symm, ContractRecords.applyAll_nil] at hr
    cases hr
    rw [hc]
  · rfl

namespace Planner

variable {α β : Type} {p q : Planner}

/-- Marks that are right are left alone. -/
theorem SyncEnds.records_eq {c c' : ContractId} {result : Outcome PlannerError Nat}
    (h : SyncEnds p c result q) (hnone : c' = c → ∀ n, result = .ok n → n = 0) :
    q.store.records c' = p.store.records c' := by
  cases h with
  | failed h => rw [h.store_eq]
  | settled h => rw [h.store_eq]
  | refused h => rw [h.store_eq]
  | marked h happly =>
    rw [store_stored, Store.records_eq_of_apply happly fun hc => ?_, h.store_eq]
    rw [markWrites, List.length_eq_zero_iff.1 (hnone hc _ rfl), List.map_nil]

/-- A batch leaves a contract alone that is another one, or of which it writes nothing. -/
theorem BatchEnds.records_eq {b : Batch} {now : Instant}
    {result : Outcome PlannerError BatchOutcome} (h : BatchEnds p b now result q) {c : ContractId}
    (hnot : ¬(Request.batch b now).Forgets (result.map .batch) c) :
    q.store.records c = p.store.records c := by
  have hother : ∀ {e : Effect} {s : Store}, p.store.apply b.contractId e.writes = .ok s →
      c ≠ b.contractId → s.records c = p.store.records c :=
    fun happly hc => Store.records_eq_of_apply happly fun h => absurd h hc
  have hsome : ∀ {e : Effect}, e.writes ≠ [] →
      ¬(Request.batch b now).Forgets (.ok (.batch (.ofEffect e))) c → c ≠ b.contractId :=
    fun hwrites hnot hc => hnot ⟨hc, mt List.length_eq_zero_iff.1 hwrites⟩
  cases h with
  | offline => rfl
  | rejected => rfl
  | idle => rfl
  | refused => rfl
  | committed _ _ happly _ hwrites => exact hother happly (hsome hwrites hnot)
  | marked _ _ happly _ hsync _ hwrites =>
    have hc := hsome hwrites hnot
    exact (hsync.records_eq fun h => absurd h hc).trans (hother happly hc)
  | fault _ _ happly _ hsync =>
    exact (hsync.records_eq fun h => absurd h hnot).trans (hother happly hnot)

end Planner

namespace Request

open Planner

/-- What a request does not make the planner forget, it has not changed. -/
theorem records_eq_of_not_forgets (r : Request) (p : Planner) {c : ContractId}
    (hnot : ¬r.Forgets (r.run.on p).1 c) :
    (r.run.on p).2.store.records c = p.store.records c := by
  cases r with
  | about c' x => rw [run, x.on_run, (scheduleEnds p c').store_eq]
  | isAcyclic c' => rw [run, Run.on_map, Planner.on_isAcyclic]
  | order c' => rw [run, Run.on_map, Planner.on_order]
  | timelines cs =>
    rw [run, Run.on_map, timelines_eq, Run.store_of_mapM store_of_attemptTimeline]
  | trend c' now => rw [run, Run.on_map, Planner.on_trend]
  | batch b now =>
    rw [run, Run.on_map] at hnot ⊢
    exact (batchEnds p b now).records_eq hnot
  | sync c' =>
    rw [run, Run.on_map] at hnot ⊢
    refine (syncEnds p c').records_eq fun hc n hn => ?_
    rw [hn] at hnot
    exact Decidable.not_not.1 fun hne => hnot ⟨hc, hne⟩
  | forget c' => rfl
  | forgetAll => rfl

end Request

namespace Planner

/-! ## A memory that comes and goes -/

section Faltering

variable {α : Type} {p q p₀ : Planner}

/-- How an operation may end on a planner that recalls only some of what it remembers.  Afterwards
it remembers what the operation has left in its memory, or what it remembered before, unless the
operation has made it forget that. -/
def Falters (x : Run α) (forgets : Outcome PlannerError α → ContractId → Prop) (p : Planner)
    (result : Outcome PlannerError α) (q : Planner) : Prop :=
  ∃ recalled : Memory, (∀ c s, recalled.get? c = some s → p.memory.get? c = some s) ∧
    result = (x.on (p.recalling recalled)).1 ∧
      ∃ kept : Memory, q = (x.on (p.recalling recalled)).2.recalling kept ∧
        ∀ c s, kept.get? c = some s →
          (x.on (p.recalling recalled)).2.memory.get? c = some s ∨
            p.memory.get? c = some s ∧ ¬forgets result c

/-- Several timelines on a planner that may recall a schedule for one of them and not for the
next. -/
inductive TimelinesFalter : Planner → List ContractId → Outcome PlannerError (List Entry) →
    Planner → Prop
  | done (p : Planner) : TimelinesFalter p [] (.ok []) p
  | stop {p q : Planner} {c : ContractId} {rest : List ContractId} {e : Failure PlannerError}
      (h : Falters (attemptTimeline c) (fun _ _ => False) p (.error e) q) :
      TimelinesFalter p (c :: rest) (.error e) q
  | next {p q q' : Planner} {c : ContractId} {rest : List ContractId} {entry : Entry}
      {result : Outcome PlannerError (List Entry)}
      (h : Falters (attemptTimeline c) (fun _ _ => False) p (.ok entry) q)
      (hrest : TimelinesFalter q rest result q') :
      TimelinesFalter p (c :: rest) (result.map fun entries => entry :: entries) q'

/-- How a request may end on a planner whose memory comes and goes. -/
inductive Takes (p : Planner) : Request → Outcome PlannerError Reply → Planner → Prop
  | request {r : Request} {result : Outcome PlannerError Reply} {q : Planner}
      (h : Falters r.run r.Forgets p result q) : Takes p r result q
  | timelines {cs : List ContractId} {result : Outcome PlannerError (List Entry)} {q : Planner}
      (h : TimelinesFalter p cs result q) : Takes p (.timelines cs) (result.map .timelines) q

/-- Several requests on a planner whose memory comes and goes, with their answers and the store
after each of them.  Before every request the hash maps may be arranged in another way. -/
inductive Serves : Planner → List (Hashing × Request) →
    List (Outcome PlannerError Reply × Store) → Planner → Prop
  | done (p : Planner) : Serves p [] [] p
  | next {p q q' : Planner} {hashing : Hashing} {r : Request} {result : Outcome PlannerError Reply}
      {rest : List (Hashing × Request)} {answers : List (Outcome PlannerError Reply × Store)}
      (h : Takes (p.rehash hashing) r result q) (hrest : Serves q rest answers q') :
      Serves p ((hashing, r) :: rest) ((result, q.store) :: answers) q'

/-- An operation that respects agreement and forgets what it changes does not show what is
recalled. -/
theorem Falters.agree {x : Run α} {forgets : Outcome PlannerError α → ContractId → Prop}
    (hx : Run.Respects Agree x)
    (hforgets : ∀ (p : Planner) (c : ContractId), ¬forgets (x.on p).1 c →
      (x.on p).2.store.records c = p.store.records c)
    {result : Outcome PlannerError α} (h : Falters x forgets p result q) (hagree : p.Agree p₀) :
    result = (x.on p₀).1 ∧ q.Agree (x.on p₀).2 := by
  obtain ⟨recalled, hrecalled, rfl, kept, rfl, hkept⟩ := h
  have htruthful : (p.recalling recalled).Truthful := fun c s hs =>
    hagree.truthful_left c s (hrecalled c s hs)
  obtain ⟨hresult, hafter⟩ := hx _ _ (hagree.recalling htruthful)
  refine ⟨hresult, hafter.recalling fun c s hs => ?_⟩
  rcases hkept c s hs with hs | ⟨hs, hnot⟩
  · exact hafter.truthful_left c s hs
  · exact (congrArg ContractRecords.schedule (hforgets _ c hnot)).trans
      (hagree.truthful_left c s hs)

theorem TimelinesFalter.agree {cs : List ContractId} {result : Outcome PlannerError (List Entry)}
    (h : TimelinesFalter p cs result q) (hagree : p.Agree p₀) :
    result = ((timelines cs).on p₀).1 ∧ q.Agree ((timelines cs).on p₀).2 := by
  have hstep : ∀ {p p₀ q : Planner} {c : ContractId} {result : Outcome PlannerError Entry},
      Falters (attemptTimeline c) (fun _ _ => False) p result q → p.Agree p₀ →
        ∃ q₀, (attemptTimeline c).on p₀ = (result, q₀) ∧ q.Agree q₀ := by
    intro p p₀ q c result h hagree
    obtain ⟨rfl, hafter⟩ := h.agree (Agree.interchangeable.attemptTimeline c)
      (fun p _ _ => congrArg (Store.records · _) (store_of_attemptTimeline c p)) hagree
    exact ⟨_, rfl, hafter⟩
  induction h generalizing p₀ with
  | done p => exact ⟨rfl, hagree⟩
  | stop h =>
    obtain ⟨q₀, hfirst, hafter⟩ := hstep h hagree
    rw [timelines_eq, List.mapM_cons, Run.on_bind_of_error hfirst]
    exact ⟨rfl, hafter⟩
  | @next p q q' c rest entry result h hrest ih =>
    obtain ⟨q₀, hfirst, hafter⟩ := hstep h hagree
    obtain ⟨rfl, hend⟩ := ih hafter
    rw [timelines_eq (c :: rest), List.mapM_cons, Run.on_bind_of_ok hfirst, Run.on_map]
    exact ⟨rfl, hend⟩

/-- No request shows what is recalled. -/
theorem Takes.agree {r : Request} {result : Outcome PlannerError Reply}
    (h : p.Takes r result q) (hagree : p.Agree p₀) :
    result = (r.run.on p₀).1 ∧ q.Agree (r.run.on p₀).2 := by
  cases h with
  | request h => exact h.agree r.respects_agree (fun p _ => r.records_eq_of_not_forgets p) hagree
  | timelines h =>
    obtain ⟨rfl, hafter⟩ := h.agree hagree
    rw [Request.run, Run.on_map]
    exact ⟨rfl, hafter⟩

/-- No run of requests shows what is recalled. -/
theorem Serves.agree {rs : List (Hashing × Request)}
    {answers : List (Outcome PlannerError Reply × Store)} (h : p.Serves rs answers q)
    (hagree : p.Agree p₀) :
    q.Truthful ∧ answers = p₀.replies rs := by
  induction h generalizing p₀ with
  | done p => exact ⟨hagree.truthful_left, rfl⟩
  | @next p q q' hashing r result rest answers h hrest ih =>
    obtain ⟨rfl, hafter⟩ := h.agree (hagree.rehash hashing)
    obtain ⟨htruthful, rfl⟩ := ih hafter
    exact ⟨htruthful, by rw [replies, hafter.store_eq]⟩

/-- A memory that never fails is one that may. -/
theorem serves_replies (p : Planner) (rs : List (Hashing × Request)) :
    ∃ q, p.Serves rs (p.replies rs) q := by
  induction rs generalizing p with
  | nil => exact ⟨p, .done p⟩
  | cons x rest ih =>
    obtain ⟨q, hq⟩ := ih (x.2.run.on (p.rehash x.1)).2
    exact ⟨q, .next (.request ⟨p.memory, fun _ _ hs => hs, rfl, _, rfl, fun _ _ => .inl⟩) hq⟩

/-- With the same settings, a planner can do without a memory. -/
theorem create_withoutMemory {store : Store} {settings : Settings}
    (h : create store settings = .ok p) :
    create store settings.withoutMemory =
      .ok ⟨settings.withoutMemory, store, { enabled := false }⟩ := by
  rw [create, bind_eq_ok] at h
  obtain ⟨_, hvalid, -⟩ := h
  have hvalid : ofExcept PlannerError.settings settings.withoutMemory.validate = .ok () := hvalid
  rw [create, hvalid]
  rfl

/-- A planner is asked this and that on a store that can be reached, and recalls of what it
remembers now this and now that.  After all of it, what it may recall of a contract is the schedule
of the records as they are.  Its answers, and the store after each of them, are those of a planner
with the same settings that never remembers anything, if the hash maps of both are arranged alike.
However those of the second one are arranged, the answers and the stores are the same up to what
depends on the order of a hash map, as long as stored milestones name their contract. -/
theorem serves_eq_replies {store : Store} {settings : Settings} (hon : store.offline = false)
    (hp : create store settings = .ok p) {rs : List (Hashing × Request)}
    {answers : List (Outcome PlannerError Reply × Store)} (h : p.Serves rs answers q) :
    q.Truthful ∧
      ∃ p₀, create store settings.withoutMemory = .ok p₀ ∧ answers = p₀.replies rs ∧
        (store.NamesContracts → ∀ rs' : List (Hashing × Request),
          rs'.map Prod.snd = rs.map Prod.snd →
            List.Forall₂ SameUpToOrder answers (p₀.replies rs')) := by
  obtain ⟨hsettings, hstore, hmemory⟩ := create_eq_ok hp
  let p₀ : Planner := ⟨settings.withoutMemory, store, { enabled := false }⟩
  have hagree : p.Agree p₀ :=
    { store_eq := hstore.symm
      settings_eq := by rw [hsettings]; rfl
      online := hstore.symm ▸ hon
      truthful_left := .of_entries hmemory
      truthful_right := .of_entries rfl }
  obtain ⟨htruthful, rfl⟩ := h.agree hagree
  exact ⟨htruthful, p₀, create_withoutMemory hp, rfl, fun hnames rs' hrs =>
    sameUpToOrder_replies (p := p₀) hnames store.hashing hrs⟩

end Faltering

end Planner

/-- The fork is read, changed and read again, and then its hash maps are arranged in another way. -/
def forkRequests : List (Hashing × Request) :=
  [({}, .about 1 .schedule), ({}, .order 1), ({}, .batch forkBatch .epoch),
    ({ place := fun entries key => entries - key }, .timelines [1, 1])]

/-- At the second request its schedule is not recalled, afterwards it may be.  The other planner has
its hash maps as they were all the time. -/
theorem serves_eq_replies_fork : forkStore.offline = false ∧ forkStore.NamesContracts ∧
    ∃ p answers q, Planner.create forkStore { persistCriticalFlags := true } = .ok p ∧
      p.Serves forkRequests answers q ∧ q.Truthful ∧
        ∃ p₀, Planner.create forkStore
            (Settings.withoutMemory { persistCriticalFlags := true }) = .ok p₀ ∧
          answers = p₀.replies forkRequests ∧
            List.Forall₂ Planner.SameUpToOrder answers
              (p₀.replies (forkRequests.map fun x => ({}, x.2))) := by
  obtain ⟨p, hp⟩ : ∃ p, Planner.create forkStore { persistCriticalFlags := true } = .ok p :=
    ⟨_, rfl⟩
  -- The second request recalls nothing, but what was remembered before it is kept.
  have hlapse : ∀ p : Planner, ∃ result q, p.Takes (.order 1) result q := fun p =>
    ⟨_, _, .request ⟨p.memory.clear, fun _ _ hs => (nomatch hs), rfl, p.memory, rfl,
      fun _ _ hs => .inr ⟨hs, not_false⟩⟩⟩
  have hrecall : ∀ (p : Planner) (r : Request), ∃ result q, p.Takes r result q := fun p r =>
    ⟨_, _, .request ⟨p.memory, fun _ _ hs => hs, rfl, _, rfl, fun _ _ => .inl⟩⟩
  obtain ⟨_, p₁, h₁⟩ := hrecall (p.rehash _) (.about 1 .schedule)
  obtain ⟨_, p₂, h₂⟩ := hlapse (p₁.rehash _)
  obtain ⟨_, p₃, h₃⟩ := hrecall (p₂.rehash _) (.batch forkBatch .epoch)
  obtain ⟨_, q, h₄⟩ := hrecall (p₃.rehash _) (.timelines [1, 1])
  have hserves : p.Serves forkRequests _ q := .next h₁ (.next h₂ (.next h₃ (.next h₄ (.done q))))
  obtain ⟨htruthful, p₀, hp₀, hanswers, hany⟩ := Planner.serves_eq_replies rfl hp hserves
  exact ⟨rfl, namesContracts_forkStore, p, _, q, hp, hserves, htruthful, p₀, hp₀, hanswers,
    hany namesContracts_forkStore _ rfl⟩

end Milestones
