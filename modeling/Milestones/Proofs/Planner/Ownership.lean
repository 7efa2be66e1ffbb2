import Milestones.Proofs.Planner.Integrity

/-!
# Which contract a milestone belongs to

A batch changes one contract and sees the others only through notes: before planning, it is noted
of every milestone that the batch refers to whether another contract has it.  A milestone that is
noted cannot be created a second time.  One that a batch creates without referring to it is not
looked for, and so it may end up in two contracts.

This is the only way.  A run in which every batch refers to what it creates, as far as other
contracts have it, keeps every milestone in one contract.

## Main definitions

* `Store.IdsUnique`: no milestone is stored under two contracts.
* `Store.Overlooks`: a batch creates what another contract has, and does not refer to it.

## Main statements

* `Planner.has_of_plan`: where the milestones come from that are there after a batch.
* `Planner.Owned.on_applyBatch`: a milestone that is noted is not created again.
* `Planner.idsUnique_afterAll`: runs in which nothing is overlooked.
-/

namespace Milestones

open Outcome

namespace Store

/-- No transaction brings in a milestone that names another contract. -/
theorem NamesContracts.apply {s s' : Store} (h : s.NamesContracts) {c : ContractId}
    {ws : List Write} (hs' : s.apply c ws = .ok s') : s'.NamesContracts := by
  obtain ⟨r, hr, hrecords⟩ := records_of_apply hs'
  intro c' m hm
  rw [hrecords] at hm
  split at hm
  · rename_i hc
    cases hc
    rw [(h.namesContract c).applyAll hr m hm, ContractRecords.contractId_of_applyAll hr,
      contractId_records]
  · exact h c' m hm

/-! ## One contract for each milestone -/

/-- The milestone is stored under the contract. -/
def Has (s : Store) (c : ContractId) (id : MilestoneId) : Prop :=
  (s.records c).milestones.contains id = true

/-- No milestone is stored under two contracts. -/
def IdsUnique (s : Store) : Prop := ∀ c c' id, s.Has c id → s.Has c' id → c = c'

/-- Where no milestone comes in, none comes to a second contract. -/
theorem IdsUnique.mono {s s' : Store} (h : s.IdsUnique)
    (hsub : ∀ c id, s'.Has c id → s.Has c id) : s'.IdsUnique :=
  fun c c' id hc hc' => h c c' id (hsub c id hc) (hsub c' id hc')

/-- What a contract has is found. -/
theorem find?_of_has {s : Store} (h : s.IdsUnique) {c : ContractId} {id : MilestoneId}
    (hc : s.Has c id) : ∃ m ∈ (s.records c).milestones.toList, s.find? id = some m := by
  obtain ⟨m, hm⟩ := Table.contains_iff_get?.1 hc
  obtain ⟨r, hr, rfl⟩ := exists_mem_contracts hm
  rw [records_of_mem hr] at hm ⊢
  cases hfind : s.find? id with
  | none =>
    have hnone := List.findSome?_eq_none_iff.1 hfind r (Hashing.mem_listed.2 hr)
    rw [hm] at hnone
    cases hnone
  | some x =>
    obtain ⟨r', hr', hx⟩ := List.exists_of_findSome?_eq_some hfind
    have hr' := Hashing.mem_listed.1 hr'
    have hhas : s.Has r'.contractId id := by
      rw [Has, records_of_mem hr']
      exact Table.contains_iff_get?.2 ⟨x, hx⟩
    -- The first contract in which the milestone is found is the only one that has it.
    have hsame : r' = r := by
      rw [← records_of_mem hr', ← records_of_mem hr, h _ _ _ hhas hc]
    rw [hsame] at hx
    exact ⟨x, Table.mem_of_get? hx, rfl⟩

theorem eq_of_note? {s : Store} {c c' : ContractId} {id id' : MilestoneId}
    (h : s.note? c id = some (id', c')) : id = id' := by
  rw [note?] at h
  split at h
  · split at h <;> cases h
    rfl
  · cases h

/-- A milestone of another contract is noted under that contract. -/
theorem note?_of_has {s : Store} (hnames : s.NamesContracts) (hunique : s.IdsUnique)
    {c c' : ContractId} (hne : c' ≠ c) {id : MilestoneId} (h : s.Has c' id) :
    s.note? c id = some (id, c') := by
  obtain ⟨m, hm, hfind⟩ := find?_of_has hunique h
  have hcontract := hnames c' m hm
  rw [note?, hfind]
  simp only [hcontract, ne_eq, hne, not_false_eq_true, if_true]

/-- The draft of a batch knows of every milestone that the batch refers to and another contract
has. -/
theorem lookup_draft {s : Store} (hnames : s.NamesContracts) (hunique : s.IdsUnique) {b : Batch}
    {c : ContractId} (hne : c ≠ b.contractId) {id : MilestoneId} (h : s.Has c id)
    (hid : id ∈ b.referenced) : (s.draft b).elsewhere.lookup id = some c := by
  have hmissing : id ∈ b.referenced.filter fun id =>
      !(s.records b.contractId).milestones.contains id := by
    refine List.mem_filter.2 ⟨hid, ?_⟩
    rw [Bool.not_eq_true', ← Bool.not_eq_true]
    exact fun hown => hne (hunique _ _ _ h hown)
  have hnote := note?_of_has hnames hunique hne h
  have hmem : (id, c) ∈ (s.draft b).elsewhere :=
    List.mem_reverse.2 (List.mem_filterMap.2 ⟨id, hmissing, hnote⟩)
  have honly : ∀ c', (id, c') ∈ (s.draft b).elsewhere → c' = c := by
    intro c' hc'
    obtain ⟨id', -, hnote'⟩ := List.mem_filterMap.1 (List.mem_reverse.1 hc')
    rw [eq_of_note? hnote', hnote] at hnote'
    cases hnote'
    rfl
  cases hlookup : (s.draft b).elsewhere.lookup id with
  | none =>
    have := List.lookup_eq_none_iff.1 hlookup _ hmem
    simp at this
  | some c' =>
    obtain ⟨l, l', hsplit, -⟩ := List.lookup_eq_some_iff.1 hlookup
    rw [honly c' (by rw [hsplit]; simp)]

/-- The batch creates a milestone that another contract has and that no change of the batch refers
to. -/
structure Overlooks (s : Store) (b : Batch) (m : Milestone) : Prop where
  created : .createMilestone m ∈ b.mutations
  elsewhere : ∃ c, c ≠ b.contractId ∧ s.Has c m.id
  notMem : m.id ∉ b.referenced

end Store

/-! ## Planning -/

namespace Draft

variable {now : Instant} {d d' : Draft}

/-- A milestone that is there after a step was there before, or was created and not known to
belong elsewhere. -/
theorem Step.contains {x : Mutation} {ws : List Write} (h : Step now d x ws d') {id : MilestoneId}
    (hid : d'.milestones.contains id = true) :
    d.milestones.contains id = true ∨
      d.elsewhere.lookup id = none ∧ ∃ m, x = .createMilestone m ∧ m.id = id := by
  have hput : ∀ {m m' : Milestone}, d.find m.id = .ok m → m'.id = m.id →
      (d.put m').milestones.contains id = true → d.milestones.contains id = true := by
    intro m m' hfind hsame hin
    rcases Table.contains_insert.1 hin with hid | hin
    · rw [← hid, show recordId m' = m'.id from rfl, hsame]
      exact contains_of_find hfind
    · exact hin
  cases h with
  | keep => exact .inl hid
  | move hfind _ hmove =>
    exact .inl (hput hfind (Milestone.sameButStanding_of_moveTo hmove).id_eq hid)
  | record hfind hrecord =>
    exact .inl (hput hfind (Milestone.sameButStanding_of_recordProgress hrecord).id_eq hid)
  | @create m _ _ helsewhere =>
    rcases Table.contains_insert.1 hid with rfl | hin
    · exact .inr ⟨helsewhere, m, rfl, rfl⟩
    · exact .inl hin
  | @edit m edit hfind => exact .inl (hput hfind (edit.id_apply m) hid)
  | delete => exact .inl (Table.contains_erase.1 hid).2
  | join => exact .inl hid
  | part => exact .inl hid

theorem Steps.contains {xs : List Mutation} {ws : List Write} (h : Steps now d xs ws d')
    {id : MilestoneId} (hid : d'.milestones.contains id = true) :
    d.milestones.contains id = true ∨
      d.elsewhere.lookup id = none ∧ ∃ m, .createMilestone m ∈ xs ∧ m.id = id := by
  induction h with
  | nil => exact .inl hid
  | cons hstep _ ih =>
    rcases ih hid with hin | ⟨hnone, m, hm, hmid⟩
    · rcases hstep.contains hin with hin | ⟨hnone, m, rfl, hmid⟩
      · exact .inl hin
      · exact .inr ⟨hnone, m, List.mem_cons_self, hmid⟩
    · rw [hstep.elsewhere_eq] at hnone
      exact .inr ⟨hnone, m, List.mem_cons_of_mem _ hm, hmid⟩

/-- A batch is rejected where the first of its changes is. -/
theorem planFrom_append_cons {index : Nat} {before after : List Mutation} {x : Mutation}
    {e : Effect} {r : Rejection} (h : planFrom now index d before = .ok (d', e))
    (hx : d'.mutate now x = .error r) :
    planFrom now index d (before ++ x :: after) = .error (index + before.length, r) := by
  induction before generalizing index d e with
  | nil =>
    cases h
    rw [List.nil_append, planFrom, hx]
    rfl
  | cons first rest ih =>
    obtain ⟨⟨d₁, e₁⟩, h₁, h⟩ := bind_eq_ok.1 h
    obtain ⟨⟨d₂, e₂⟩, h₂, h⟩ := bind_eq_ok.1 h
    cases h
    rw [List.cons_append, planFrom, h₁]
    change planFrom now (index + 1) d₁ (rest ++ x :: after) >>= _ = _
    rw [ih h₂, List.length_cons, Nat.add_comm rest.length 1, ← Nat.add_assoc]
    rfl

/-- A milestone that is known to belong elsewhere is not created. -/
theorem mutate_createMilestone_of_lookup {m : Milestone} (hcontract : m.contractId = d.contractId)
    {c : ContractId} (h : d.elsewhere.lookup m.id = some c) :
    d.mutate now (.createMilestone m) = .error (.duplicateMilestone m.id) := by
  simp [mutate, hcontract, h]
  rfl

end Draft

/-! ## Operations -/

namespace Planner

variable {p q : Planner}

/-- Marks bring in no milestone and no other name of a contract. -/
theorem SyncEnds.names_has {c : ContractId} {result : Outcome PlannerError Nat}
    (h : SyncEnds p c result q) (hnames : p.store.NamesContracts) :
    q.store.NamesContracts ∧ ∀ c' id, q.store.Has c' id → p.store.Has c' id := by
  cases h with
  | failed h => rw [h.store_eq]; exact ⟨hnames, fun _ _ hid => hid⟩
  | settled h => rw [h.store_eq]; exact ⟨hnames, fun _ _ hid => hid⟩
  | refused h => rw [h.store_eq]; exact ⟨hnames, fun _ _ hid => hid⟩
  | marked h happly =>
    rw [h.store_eq] at happly
    refine ⟨hnames.apply happly, fun c' id hid => ?_⟩
    obtain ⟨r, hr, hrecords⟩ := Store.records_of_apply happly
    rw [Store.Has, store_stored, hrecords] at hid
    split at hid
    · rename_i hc
      rw [← hc]
      refine ContractRecords.applyAll_replaceMilestone_invariant
        (P := fun r => r.milestones.contains id = true → p.store.Has c id)
        (fun m _ r _ hcontains ih hid => ?_) (fun hid => hid) hr hid
      rcases Table.contains_insert.1 hid with rfl | hid
      · exact ih hcontains
      · exact ih hid
    · exact hid

/-- The milestones of a contract after the writes of a batch were there before, or the batch
created them and did not know of another contract that has them. -/
theorem has_of_plan (hnames : p.store.NamesContracts) {b : Batch} {now : Instant} {d : Draft}
    {e : Effect} (hplan : (p.store.draft b).plan b now = .ok (d, e)) {s : Store}
    (happly : p.store.apply b.contractId e.writes = .ok s) {c : ContractId} {id : MilestoneId}
    (hid : s.Has c id) :
    p.store.Has c id ∨ c = b.contractId ∧ (p.store.draft b).elsewhere.lookup id = none ∧
      ∃ m, .createMilestone m ∈ b.mutations ∧ m.id = id := by
  obtain ⟨r, hr, hrecords⟩ := Store.records_of_apply happly
  rw [Store.Has, hrecords] at hid
  split at hid
  · rename_i hc
    cases (Store.applyAll_of_plan (hnames.namesContract b.contractId) hplan).symm.trans hr
    rcases (Draft.steps_of_plan hplan).contains hid with hin | ⟨hnone, m, hm, hmid⟩
    · exact .inl (hc ▸ hin)
    · exact .inr ⟨hc.symm, hnone, m, Mutation.mem_of_mem_flatMap_parts hm nofun nofun, hmid⟩
  · exact .inl hid

/-- So no milestone comes to a second contract, unless the batch overlooks one. -/
theorem idsUnique_of_plan (hnames : p.store.NamesContracts) (hunique : p.store.IdsUnique)
    {b : Batch} (hseen : ∀ m, ¬p.store.Overlooks b m) {now : Instant} {d : Draft} {e : Effect}
    (hplan : (p.store.draft b).plan b now = .ok (d, e)) {s : Store}
    (happly : p.store.apply b.contractId e.writes = .ok s) : s.IdsUnique := by
  -- Where a milestone is created, no other contract has it.
  have hnew : ∀ c id, p.store.Has c id → (p.store.draft b).elsewhere.lookup id = none →
      (∃ m, .createMilestone m ∈ b.mutations ∧ m.id = id) → c = b.contractId := by
    rintro c id hc hnone ⟨m, hm, rfl⟩
    by_contra hne
    refine hseen m ⟨hm, ⟨c, hne, hc⟩, fun hid => ?_⟩
    rw [Store.lookup_draft hnames hunique hne hc hid] at hnone
    cases hnone
  intro c c' id hc hc'
  rcases has_of_plan hnames hplan happly hc with hold | ⟨rfl, hnone, hm⟩ <;>
    rcases has_of_plan hnames hplan happly hc' with hold' | ⟨rfl, hnone', hm'⟩
  · exact hunique c c' id hold hold'
  · exact hnew c id hold hnone' hm'
  · exact (hnew c' id hold' hnone hm).symm
  · rfl

/-- Every milestone is stored under one contract, and names it. -/
structure Owned (p : Planner) : Prop where
  namesContracts : p.store.NamesContracts
  idsUnique : p.store.IdsUnique

theorem Owned.of_syncEnds (hp : p.Owned) {c : ContractId} {result : Outcome PlannerError Nat}
    (h : SyncEnds p c result q) : q.Owned := by
  obtain ⟨hnames, hsub⟩ := h.names_has hp.namesContracts
  exact ⟨hnames, hp.idsUnique.mono hsub⟩

/-- A batch that overlooks nothing leaves every milestone in one contract. -/
theorem Owned.of_batchEnds (hp : p.Owned) {b : Batch} (hseen : ∀ m, ¬p.store.Overlooks b m)
    {now : Instant} {result : Outcome PlannerError BatchOutcome} (h : BatchEnds p b now result q) :
    q.Owned := by
  have hstored : ∀ {d e s}, (p.store.draft b).plan b now = .ok (d, e) →
      p.store.apply b.contractId e.writes = .ok s → (p.stored b.contractId s).Owned :=
    fun hplan happly => ⟨hp.namesContracts.apply happly,
      idsUnique_of_plan hp.namesContracts hp.idsUnique hseen hplan happly⟩
  cases h with
  | offline => exact hp
  | rejected => exact hp
  | idle => exact hp
  | refused => exact hp
  | committed _ hplan happly => exact hstored hplan happly
  | marked _ hplan happly _ hsync => exact (hstored hplan happly).of_syncEnds hsync
  | fault _ hplan happly _ hsync => exact (hstored hplan happly).of_syncEnds hsync

/-- So does every operation. -/
theorem Owned.after (hp : p.Owned) (o : Operation)
    (hseen : ∀ b now, o = .batch b now → ∀ m, ¬p.store.Overlooks b m) : (o.after p).Owned := by
  cases o with
  | batch b now => exact hp.of_batchEnds (hseen b now rfl) (batchEnds p b now)
  | sync c => exact hp.of_syncEnds (syncEnds p c)
  | schedule c =>
    have hstore : (Operation.after p (.schedule c)).store = p.store :=
      (scheduleEnds p c).store_eq
    exact ⟨hstore ▸ hp.namesContracts, hstore ▸ hp.idsUnique⟩
  | outage offline => exact ⟨hp.namesContracts, hp.idsUnique⟩
  | lapse cs => exact ⟨hp.namesContracts, hp.idsUnique⟩
  | rehash hashing => exact ⟨hp.namesContracts, hp.idsUnique⟩

/-- A milestone that another contract has is not created, if the batch refers to it. -/
theorem Owned.on_applyBatch (hp : p.Owned) (hon : p.store.offline = false) {b : Batch}
    {now : Instant} {before after : List Mutation} {m : Milestone}
    (hb : b.mutations = before ++ .createMilestone m :: after) (hm : m.contractId = b.contractId)
    {c : ContractId} (hne : c ≠ b.contractId) (hc : p.store.Has c m.id)
    (hid : m.id ∈ b.referenced) {accepted : Draft × Effect}
    (hbefore : (p.store.draft b).planFrom now 0 before = .ok accepted) :
    (applyBatch b now).on p =
      (.error (.refused (.rejected before.length (.duplicateMilestone m.id))), p) := by
  obtain ⟨d, e⟩ := accepted
  have hsteps := Draft.steps_of_planFrom hbefore
  have hcontract : d.contractId = b.contractId :=
    hsteps.invariant (P := fun d => d.contractId = b.contractId)
      (fun h hd => h.contractId_eq.trans hd) rfl
  have hlookup : d.elsewhere.lookup m.id = some c :=
    hsteps.invariant (P := fun d => d.elsewhere.lookup m.id = some c)
      (fun h hd => by rw [h.elsewhere_eq]; exact hd)
      (Store.lookup_draft hp.namesContracts hp.idsUnique hne hc hid)
  have hplan : (p.store.draft b).plan b now =
      .error (before.length, .duplicateMilestone m.id) := by
    rw [Draft.plan, hb, Draft.planFrom_append_cons hbefore
      (Draft.mutate_createMilestone_of_lookup (hm.trans hcontract.symm) hlookup), Nat.zero_add]
  exact on_applyBatch_of_rejected hon hplan

/-- What a run keeps of which no batch overlooks anything. -/
theorem Owned.afterAll (hp : p.Owned) {os : List Operation}
    (hseen : ∀ before b now after, os = before ++ .batch b now :: after →
      ∀ m, ¬(p.afterAll before).store.Overlooks b m) : (p.afterAll os).Owned := by
  induction os using List.reverseRecOn with
  | nil => exact hp
  | append_singleton os o ih =>
    have hprefix : (p.afterAll os).Owned := ih fun before b now after hsplit =>
      hseen before b now (after ++ [o]) (by rw [hsplit, List.append_assoc, List.cons_append])
    have hlast : p.afterAll (os ++ [o]) = o.after (p.afterAll os) := List.foldl_concat _ _ _ _
    rw [hlast]
    refine hprefix.after o fun b now ho => ?_
    cases ho
    exact hseen os b now [] rfl

/-- At the start of a run, every milestone is stored under one contract and names it.  If no batch
of the run creates a milestone of another contract without referring to it, then every milestone
is stored under one contract after the run.  A batch that is taken then, and creates a milestone of
another contract to which it refers, is rejected there as a duplicate, and nothing changes. -/
theorem idsUnique_afterAll {p : Planner} (hnames : p.store.NamesContracts)
    (hunique : p.store.IdsUnique) {os : List Operation}
    (hseen : ∀ before b now after, os = before ++ .batch b now :: after →
      ∀ m, ¬(p.afterAll before).store.Overlooks b m) :
    (p.afterAll os).store.IdsUnique ∧
      ∀ b now before m after c, (p.afterAll os).store.offline = false →
        b.mutations = before ++ .createMilestone m :: after → m.contractId = b.contractId →
        c ≠ b.contractId → (p.afterAll os).store.Has c m.id → m.id ∈ b.referenced →
        (∃ accepted, ((p.afterAll os).store.draft b).planFrom now 0 before = .ok accepted) →
          (applyBatch b now).on (p.afterAll os) =
            (.error (.refused (.rejected before.length (.duplicateMilestone m.id))),
              p.afterAll os) := by
  have hend := Owned.afterAll ⟨hnames, hunique⟩ hseen
  refine ⟨hend.idsUnique, fun b now before m after c hon hb hm hne hc hid hbefore => ?_⟩
  obtain ⟨accepted, haccepted⟩ := hbefore
  exact hend.on_applyBatch hon hb hm hne hc hid haccepted

end Planner

/-! ## Batches that take over a milestone of the fork -/

/-- Where only one contract is stored, no milestone is stored twice. -/
theorem Store.idsUnique_ofSnapshot (snapshot : Snapshot) : (ofSnapshot snapshot).IdsUnique := by
  have hof : ∀ c id, (ofSnapshot snapshot).Has c id → snapshot.contractId = c := by
    intro c id hc
    rw [Has, records_ofSnapshot] at hc
    split at hc
    · assumption
    · cases hc
  exact fun c c' id hc hc' => (hof c id hc).symm.trans (hof c' id hc')

/-- Another contract creates a milestone of the fork.  The changes after that may refer to it. -/
def takeover (rest : List Mutation) : Batch :=
  { contractId := 2
    mutations := .createMilestone { id := 3, contractId := 2, title := "taken" } :: rest }

/-- If the batch goes on to start the milestone, it is rejected, and the next time as well. -/
theorem idsUnique_afterAll_takeover : forkStore.NamesContracts ∧ forkStore.IdsUnique ∧
    ∃ p, p = (Planner.withDefaults forkStore).afterAll
        [.batch (takeover [.setStatus [3] .inProgress]) .epoch] ∧ p.store.IdsUnique ∧
      (Planner.applyBatch (takeover [.setStatus [3] .inProgress]) .epoch).on p =
        (.error (.refused (.rejected 0 (.duplicateMilestone 3))), p) := by
  have hunique : forkStore.IdsUnique := Store.idsUnique_ofSnapshot _
  have hseen : ∀ before b now after,
      [Operation.batch (takeover [.setStatus [3] .inProgress]) .epoch] =
        before ++ .batch b now :: after →
      ∀ m, ¬((Planner.withDefaults forkStore).afterAll before).store.Overlooks b m := by
    intro before b now after hsplit m hover
    obtain ⟨rfl, hsplit⟩ | ⟨_, rfl, hsplit⟩ := List.append_eq_cons_iff.1 hsplit.symm
    · cases hsplit
      have hcreated := hover.created
      simp only [takeover, List.mem_cons, Mutation.createMilestone.injEq, reduceCtorEq,
        List.not_mem_nil, or_self, or_false] at hcreated
      refine hover.notMem ?_
      rw [hcreated]
      decide
    · simp at hsplit
  obtain ⟨hend, hrejects⟩ :=
    Planner.idsUnique_afterAll (p := .withDefaults forkStore) namesContracts_forkStore hunique hseen
  refine ⟨namesContracts_forkStore, hunique, _, rfl, hend, ?_⟩
  exact hrejects _ _ [] { id := 3, contractId := 2, title := "taken" } _ 1 rfl rfl rfl (by decide)
    rfl (by decide) ⟨_, rfl⟩

/-- If it does not refer to the milestone, the milestone ends up in both contracts. -/
theorem not_idsUnique_afterAll_takeover : forkStore.NamesContracts ∧ forkStore.IdsUnique ∧
    ((Planner.applyBatch (takeover []) .epoch).on (.withDefaults forkStore)).1 =
        .ok ⟨1, 1, 0, true⟩ ∧
      ¬((Planner.withDefaults forkStore).afterAll
        [.batch (takeover []) .epoch]).store.IdsUnique := by
  refine ⟨namesContracts_forkStore, Store.idsUnique_ofSnapshot _, rfl, fun hunique => ?_⟩
  have hsame := hunique 1 2 3 rfl rfl
  exact absurd hsame (by decide)

end Milestones
