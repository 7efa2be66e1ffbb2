import Milestones.Proofs.Change.Notes
import Milestones.Proofs.Planner.Ownership

/-!
# A batch in two parts

A batch may be cut in two and taken as two batches, one right after the other.  The whole is planned
on one draft and written in one transaction; the parts are planned on two drafts, with a transaction
in between.  The second draft is what the first part left on the first one, apart from the notes of
other contracts: those of the whole cover both parts, and those of the second part are taken anew.
They agree where they are asked, as long as nothing is created that another contract has.

Where the marks are set after a batch, they are set once for the whole and twice for the parts, so
here no marks are set.

## Main definitions

* `Planner.Wrote`: the planner after a transaction, if there is anything to write.

## Main statements

* `Store.lookup_draft_eq_some_iff`: what is noted for a batch.
* `Planner.on_applyBatch_eq_ok`: a batch after which no marks are set.
* `Planner.applyBatch_append`: a batch and its two parts.
-/

namespace Milestones

open Outcome

namespace Store

variable {s s' : Store} {b b' : Batch} {c : ContractId} {id : MilestoneId}

/-! ## Transactions -/

/-- Writes that follow others in one transaction may be a transaction of their own. -/
theorem apply_append {ws : List Write} (h : s.apply c ws = .ok s') (ws' : List Write) :
    s.apply c (ws ++ ws') = s'.apply c ws' := by
  obtain ⟨-, r, hr, rfl⟩ := apply_eq_ok.1 h
  have hcontract : r.contractId = c :=
    (ContractRecords.contractId_of_applyAll hr).trans (s.contractId_records c)
  rw [apply, apply, ContractRecords.applyAll_append, hr, records_insert, if_pos hcontract]
  change s.checkOnline >>= _ = s.checkOnline >>= _
  cases s.checkOnline with
  | error e => rfl
  | ok u =>
    change (r.applyAll ws' >>= _) = (r.applyAll ws' >>= _)
    cases hws : r.applyAll ws' with
    | error e => rfl
    | ok r' =>
      have hsame : recordId r = recordId r' := (ContractRecords.contractId_of_applyAll hws).symm
      exact congrArg (fun t => Except.ok { s with contracts := t })
        (Table.insert_insert hsame s.contracts).symm

/-! ## Notes -/

/-- What is noted of a milestone is another contract that has it. -/
theorem has_of_note? (hnames : s.NamesContracts) {c' : ContractId} {id' : MilestoneId}
    (h : s.note? c id = some (id', c')) : c' ≠ c ∧ s.Has c' id := by
  rw [note?] at h
  split at h
  · rename_i m hfind
    split at h
    · rename_i hne
      cases h
      obtain ⟨r, hr, hget⟩ := List.exists_of_findSome?_eq_some hfind
      have hrecords := records_of_mem (Hashing.mem_listed.1 hr)
      have hcontract : m.contractId = r.contractId :=
        hnames r.contractId m (hrecords.symm ▸ Table.mem_of_get? hget)
      rw [hcontract, Has, hrecords]
      exact ⟨hcontract ▸ hne, Table.contains_iff_get?.2 ⟨m, hget⟩⟩
    · cases h
  · cases h

/-- A contract is noted for a milestone if the batch takes the milestone to exist and the contract
is another one that has it. -/
theorem lookup_draft_eq_some_iff (hnames : s.NamesContracts) (hunique : s.IdsUnique) :
    (s.draft b).elsewhere.lookup id = some c ↔
      id ∈ b.referenced ∧ c ≠ b.contractId ∧ s.Has c id := by
  constructor
  · intro h
    obtain ⟨l, l', hsplit, -⟩ := List.lookup_eq_some_iff.1 h
    have hmem : (id, c) ∈ (s.draft b).elsewhere := by
      rw [hsplit]
      simp
    obtain ⟨id', hid', hnote⟩ := List.mem_filterMap.1 (List.mem_reverse.1 hmem)
    obtain rfl := eq_of_note? hnote
    exact ⟨(List.mem_filter.1 hid').1, has_of_note? hnames hnote⟩
  · rintro ⟨hid, hne, hhas⟩
    exact lookup_draft hnames hunique hne hhas hid

/-- The notes for two batches on one contract agree about a milestone that both take to exist, and
about one that no other contract has. -/
theorem lookup_draft_congr (hnames : s.NamesContracts) (hunique : s.IdsUnique)
    (hnames' : s'.NamesContracts) (hunique' : s'.IdsUnique)
    (hcontract : b'.contractId = b.contractId)
    (hhas : ∀ c, c ≠ b.contractId → (s'.Has c id ↔ s.Has c id))
    (hid : (id ∈ b.referenced ∧ id ∈ b'.referenced) ∨ ∀ c, c ≠ b.contractId → ¬s.Has c id) :
    (s'.draft b').elsewhere.lookup id = (s.draft b).elsewhere.lookup id := by
  ext c
  rw [lookup_draft_eq_some_iff hnames hunique, lookup_draft_eq_some_iff hnames' hunique', hcontract]
  by_cases hc : c = b.contractId
  · simp [hc]
  rw [hhas c hc]
  rcases hid with ⟨hid, hid'⟩ | hnone
  · simp [hid, hid']
  · simp [hnone c hc]

/-- So they agree where a change that is in both asks, if it creates nothing that another contract
has. -/
theorem lookup_draft_of_mem_asked (hnames : s.NamesContracts) (hunique : s.IdsUnique)
    (hnames' : s'.NamesContracts) (hunique' : s'.IdsUnique)
    (hcontract : b'.contractId = b.contractId)
    (hhas : ∀ c, c ≠ b.contractId → (s'.Has c id ↔ s.Has c id)) {x : Mutation}
    (hx : x ∈ b.mutations) (hx' : x ∈ b'.mutations)
    (hnew : ∀ m, x = .createMilestone m → ∀ c, c ≠ b.contractId → ¬s.Has c m.id)
    (hid : id ∈ x.asked) :
    (s'.draft b').elsewhere.lookup id = (s.draft b).elsewhere.lookup id := by
  refine lookup_draft_congr hnames hunique hnames' hunique' hcontract hhas ?_
  rcases Mutation.referenced_or_created_of_mem_asked hid with hid | ⟨m, rfl, rfl⟩
  · exact .inl ⟨List.mem_flatMap.2 ⟨x, hx, hid⟩, List.mem_flatMap.2 ⟨x, hx', hid⟩⟩
  · exact .inr (hnew m rfl)

end Store

/-- What two batches did, one after the other. -/
instance : Append BatchOutcome where
  append o o' :=
    ⟨o.operations + o'.operations, o.milestonesTouched + o'.milestonesTouched,
      o.cascadedDependencies + o'.cascadedDependencies, o.scheduleChanged || o'.scheduleChanged⟩

theorem BatchOutcome.ofEffect_append (e e' : Effect) :
    ofEffect (e ++ e') = ofEffect e ++ ofEffect e' := by
  change (⟨(e.writes ++ e'.writes).length, _, _, _⟩ : BatchOutcome) = ⟨_, _, _, _⟩
  rw [List.length_append]
  rfl

namespace Planner

variable {p q : Planner} {c : ContractId}

/-! ## Writes of a batch -/

/-- The planner after writes to a contract.  Where there is nothing to write there is no
transaction. -/
inductive Wrote (p : Planner) (c : ContractId) : List Write → Planner → Prop
  | nothing : Wrote p c [] p
  | stored {ws : List Write} {s : Store} (hsome : ws ≠ []) (happly : p.store.apply c ws = .ok s) :
      Wrote p c ws (p.stored c s)

namespace Wrote

variable {ws ws' : List Write}

/-- Writes lead to one planner only. -/
theorem eq {q' : Planner} (h : p.Wrote c ws q) (h' : p.Wrote c ws q') : q' = q := by
  cases h with
  | nothing =>
    cases h' with
    | nothing => rfl
    | stored hsome => exact absurd rfl hsome
  | stored hsome happly =>
    cases h' with
    | nothing => exact absurd rfl hsome
    | stored _ happly' =>
      cases happly.symm.trans happly'
      rfl

/-- A second transaction takes the place of the first one. -/
theorem append {q' : Planner} (h : p.Wrote c ws q) (h' : q.Wrote c ws' q') :
    p.Wrote c (ws ++ ws') q' := by
  cases h with
  | nothing => exact h'
  | @stored _ s hsome happly =>
    cases h' with
    | nothing =>
      rw [List.append_nil]
      exact .stored hsome happly
    | @stored _ s' _ happly' =>
      have htwice : (p.stored c s).stored c s' = p.stored c s' :=
        congrArg (fun t => { p with store := s', memory := { p.memory with entries := t } })
          (p.memory.entries.erase_erase c)
      rw [htwice]
      refine .stored (fun hnil => hsome (List.append_eq_nil_iff.1 hnil).1) ?_
      rw [Store.apply_append happly]
      exact happly'

theorem exists_of_applyAll (hon : p.store.offline = false) {r : ContractRecords}
    (h : (p.store.records c).applyAll ws = .ok r) : ∃ q, p.Wrote c ws q := by
  by_cases hws : ws = []
  · exact ⟨p, hws ▸ .nothing⟩
  · exact ⟨_, .stored hws (Store.apply_eq_ok.2 ⟨hon, r, h, rfl⟩)⟩

variable (h : p.Wrote c ws q)
include h

theorem settings_eq : q.settings = p.settings := by
  cases h <;> rfl

theorem offline_eq : q.store.offline = p.store.offline := by
  cases h with
  | nothing => rfl
  | stored _ happly =>
    obtain ⟨-, r, -, rfl⟩ := Store.apply_eq_ok.1 happly
    rfl

theorem exists_apply (hon : p.store.offline = false) : ∃ s, p.store.apply c ws = .ok s := by
  cases h with
  | nothing => exact ⟨_, Store.apply_eq_ok.2 ⟨hon, _, rfl, rfl⟩⟩
  | stored _ happly => exact ⟨_, happly⟩

/-- The contract has the records to which the writes lead, and the others are left alone. -/
theorem applyAll_eq :
    (p.store.records c).applyAll ws = .ok (q.store.records c) ∧
      ∀ c', c' ≠ c → q.store.records c' = p.store.records c' := by
  cases h with
  | nothing => exact ⟨rfl, fun _ _ => rfl⟩
  | stored _ happly =>
    obtain ⟨r, hr, hrecords⟩ := Store.records_of_apply happly
    rw [store_stored, hrecords, if_pos rfl]
    refine ⟨hr, fun c' hc' => ?_⟩
    rw [hrecords, if_neg hc'.symm]

end Wrote

theorem on_applyBatch_offline (hoff : p.store.offline = true) (b : Batch) (now : Instant) :
    (applyBatch b now).on p = (.error (.refused (.store .unavailable)), p) := by
  rw [applyBatch, Run.on_bind_of_error (on_draftFor_offline hoff b)]

/-- A batch that is accepted, where no marks are set after it. -/
theorem on_applyBatch_eq_ok (hmarks : p.settings.persistCriticalFlags = false)
    (hon : p.store.offline = false) {b : Batch} {now : Instant} {d : Draft} {e : Effect}
    (hplan : (p.store.draft b).plan b now = .ok (d, e))
    (hwrote : p.Wrote b.contractId e.writes q) :
    (applyBatch b now).on p = (.ok (.ofEffect e), q) := by
  have hnomarks : p.marksAfter e = false := by rw [marksAfter, hmarks, Bool.false_and]
  have hends := batchEnds p b now
  cases hrun : (applyBatch b now).on p with
  | mk result q' =>
    rw [hrun] at hends
    cases hends with
    | offline hoff => cases hon.symm.trans hoff
    | rejected _ hplan' => cases hplan.symm.trans hplan'
    | idle _ hplan' hnone =>
      cases hplan.symm.trans hplan'
      refine congrArg (Prod.mk _) (hwrote.eq ?_)
      rw [hnone]
      exact .nothing
    | refused _ hplan' happly =>
      cases hplan.symm.trans hplan'
      obtain ⟨s, hs⟩ := hwrote.exists_apply hon
      cases hs.symm.trans happly
    | committed _ hplan' happly _ hsome =>
      cases hplan.symm.trans hplan'
      exact congrArg (Prod.mk _) (hwrote.eq (.stored hsome happly))
    | marked _ hplan' _ hmarks' =>
      cases hplan.symm.trans hplan'
      cases hnomarks.symm.trans hmarks'
    | fault _ hplan' _ hmarks' =>
      cases hplan.symm.trans hplan'
      cases hnomarks.symm.trans hmarks'

/-! ## Two parts -/

/-- What a batch writes leaves every milestone in one contract, if the batch creates nothing that
another contract has. -/
theorem Owned.of_wrote (hp : p.Owned) {b : Batch} {now : Instant} {d : Draft} {e : Effect}
    (hnew : ∀ m, .createMilestone m ∈ b.mutations → ∀ c, c ≠ b.contractId → ¬p.store.Has c m.id)
    (hplan : (p.store.draft b).plan b now = .ok (d, e)) (h : p.Wrote b.contractId e.writes q) :
    q.Owned := by
  have hseen : ∀ m, ¬p.store.Overlooks b m := by
    intro m hover
    obtain ⟨c, hne, hhas⟩ := hover.elsewhere
    exact hnew m hover.created c hne hhas
  generalize hws : e.writes = ws at h
  cases h with
  | nothing => exact hp
  | stored _ happly =>
    subst hws
    exact ⟨hp.namesContracts.apply happly,
      idsUnique_of_plan hp.namesContracts hp.idsUnique hseen hplan happly⟩

/-- How a batch and its two parts end, where the store can be reached. -/
inductive PartsEnd (p : Planner) (c : ContractId) (xs ys : List Mutation) (now : Instant) : Prop
  | first {i : Nat} {r : Rejection} (hi : i < xs.length)
      (hfirst : (applyBatch ⟨c, xs⟩ now).on p = (.error (.refused (.rejected i r)), p))
      (hwhole : (applyBatch ⟨c, xs ++ ys⟩ now).on p = (.error (.refused (.rejected i r)), p))
  | second {e : Effect} {q : Planner} {i : Nat} {r : Rejection}
      (hfirst : (applyBatch ⟨c, xs⟩ now).on p = (.ok (.ofEffect e), q))
      (hsecond : (applyBatch ⟨c, ys⟩ now).on q = (.error (.refused (.rejected i r)), q))
      (hwhole : (applyBatch ⟨c, xs ++ ys⟩ now).on p =
        (.error (.refused (.rejected (xs.length + i) r)), p))
  | both {e e' : Effect} {q q' : Planner}
      (hfirst : (applyBatch ⟨c, xs⟩ now).on p = (.ok (.ofEffect e), q))
      (hsecond : (applyBatch ⟨c, ys⟩ now).on q = (.ok (.ofEffect e'), q'))
      (hwhole : (applyBatch ⟨c, xs ++ ys⟩ now).on p = (.ok (.ofEffect (e ++ e')), q'))

section

variable (hp : p.Owned) {xs ys : List Mutation} (now : Instant)
  (hnew : ∀ m, .createMilestone m ∈ xs ++ ys → ∀ c', c' ≠ c → ¬p.store.Has c' m.id)
include hp hnew

/-- The first part is planned as it is planned in the whole. -/
theorem planFrom_first :
    Draft.planFrom now 0 (p.store.draft ⟨c, xs⟩) xs =
      (Draft.planFrom now 0 (p.store.draft ⟨c, xs ++ ys⟩) xs).map
        (Draft.resultNoting (p.store.draft ⟨c, xs⟩).elsewhere) := by
  refine Draft.planFrom_noting (d := p.store.draft ⟨c, xs ++ ys⟩) fun x hx id hid => ?_
  have hin : x ∈ xs ++ ys := List.mem_append_left _ hx
  refine Store.lookup_draft_of_mem_asked hp.namesContracts hp.idsUnique hp.namesContracts
    hp.idsUnique rfl (fun _ _ => Iff.rfl) hin hx (fun m hm => ?_) hid
  exact hnew m (hm ▸ hin)

/-- The second part is planned after the first one as it is planned in the whole. -/
theorem planFrom_second {d : Draft} {e : Effect}
    (hplan : Draft.planFrom now 0 (p.store.draft ⟨c, xs ++ ys⟩) xs = .ok (d, e))
    (hwrote : p.Wrote c e.writes q) :
    Draft.planFrom now 0 (q.store.draft ⟨c, ys⟩) ys =
      (Draft.planFrom now 0 d ys).map
        (Draft.resultNoting (q.store.draft ⟨c, ys⟩).elsewhere) := by
  have hfirst : (p.store.draft ⟨c, xs⟩).plan ⟨c, xs⟩ now =
      .ok (d.noting (p.store.draft ⟨c, xs⟩).elsewhere, e) :=
    (planFrom_first hp now hnew).trans (by rw [hplan]; rfl)
  obtain ⟨hrecords, hothers⟩ := hwrote.applyAll_eq
  have hwritten := Store.applyAll_of_plan (hp.namesContracts.namesContract c) hfirst
  have hq := hp.of_wrote (fun m hm => hnew m (List.mem_append_left _ hm)) hfirst hwrote
  -- What the first part left on its draft is what the second part starts from.
  have hrecords : q.store.records c = d.records _ := Except.ok.inj (hrecords.symm.trans hwritten)
  have hcontract : c = d.contractId := by
    rw [← q.store.contractId_records c, hrecords]
    rfl
  have hdraft : q.store.draft ⟨c, ys⟩ = d.noting (q.store.draft ⟨c, ys⟩).elsewhere := by
    rw [Store.draft, hrecords, hcontract]
    rfl
  have hnotes := Draft.elsewhere_of_planFrom hplan
  rw [hdraft]
  refine Draft.planFrom_noting fun x hx id hid => ?_
  rw [hnotes]
  have hin : x ∈ xs ++ ys := List.mem_append_right _ hx
  refine Store.lookup_draft_of_mem_asked hp.namesContracts hp.idsUnique hq.namesContracts
    hq.idsUnique rfl (fun c' hc' => by rw [Store.Has, Store.Has, hothers c' hc']) hin hx
    (fun m hm => ?_) hid
  exact hnew m (hm ▸ hin)

/-- A batch ends with the first of its parts that is rejected, or both parts are accepted. -/
theorem partsEnd (hmarks : p.settings.persistCriticalFlags = false)
    (hon : p.store.offline = false) : PartsEnd p c xs ys now := by
  have hfirst := planFrom_first hp now hnew
  have hwhole := Draft.planFrom_append now 0 (p.store.draft ⟨c, xs ++ ys⟩) xs ys
  cases hplan : Draft.planFrom now 0 (p.store.draft ⟨c, xs ++ ys⟩) xs with
  | error rejected =>
    rw [hplan] at hfirst hwhole
    have hlt := Draft.lt_of_planFrom_eq_error hplan
    rw [Nat.zero_add] at hlt
    exact .first hlt (on_applyBatch_of_rejected hon hfirst) (on_applyBatch_of_rejected hon hwhole)
  | ok planned =>
    rw [hplan] at hfirst hwhole
    have hwritten := Store.applyAll_of_plan (hp.namesContracts.namesContract c) hfirst
    obtain ⟨q, hwrote⟩ := Wrote.exists_of_applyAll hon hwritten
    have haccepted := on_applyBatch_eq_ok hmarks hon hfirst hwrote
    have hqon := hwrote.offline_eq.trans hon
    have hqmarks : q.settings.persistCriticalFlags = false := by rw [hwrote.settings_eq, hmarks]
    have hsecond := planFrom_second hp now hnew hplan hwrote
    change _ = Except.map _ (Draft.planFrom now (0 + xs.length) planned.1 ys) at hwhole
    rw [Nat.add_comm 0, Draft.planFrom_add] at hwhole
    cases hrest : Draft.planFrom now 0 planned.1 ys with
    | error rejected =>
      rw [hrest] at hsecond hwhole
      exact .second haccepted (on_applyBatch_of_rejected hqon hsecond)
        (on_applyBatch_of_rejected hon hwhole)
    | ok planned' =>
      rw [hrest] at hsecond hwhole
      have hq := hp.of_wrote (fun m hm => hnew m (List.mem_append_left _ hm)) hfirst hwrote
      have hwritten' := Store.applyAll_of_plan (hq.namesContracts.namesContract c) hsecond
      obtain ⟨q', hwrote'⟩ := Wrote.exists_of_applyAll hqon hwritten'
      exact .both haccepted (on_applyBatch_eq_ok hqmarks hqon hsecond hwrote')
        (on_applyBatch_eq_ok hmarks hon hwhole (hwrote.append hwrote'))

end

/-- Every milestone is stored under one contract and names it, and a batch creates nothing that
another contract has.  If no marks are set, the batch is accepted exactly if its first part is and
then the second part is.  What they did adds up to what the batch did, and they leave the same
planner, and so the same records.  If the batch is rejected, then one of its parts is, at the same
change and for the same reason. -/
theorem applyBatch_append (hnames : p.store.NamesContracts) (hunique : p.store.IdsUnique)
    (hmarks : p.settings.persistCriticalFlags = false) {xs ys : List Mutation}
    (hnew : ∀ m, .createMilestone m ∈ xs ++ ys → ∀ c', c' ≠ c → ¬p.store.Has c' m.id)
    (now : Instant) :
    (∀ o q, (applyBatch ⟨c, xs ++ ys⟩ now).on p = (.ok o, q) ↔
      ∃ o₁ q₁ o₂, (applyBatch ⟨c, xs⟩ now).on p = (.ok o₁, q₁) ∧
        (applyBatch ⟨c, ys⟩ now).on q₁ = (.ok o₂, q) ∧ o = o₁ ++ o₂) ∧
    ∀ i r, ((applyBatch ⟨c, xs ++ ys⟩ now).on p).1 = .error (.refused (.rejected i r)) →
      if i < xs.length then
        ((applyBatch ⟨c, xs⟩ now).on p).1 = .error (.refused (.rejected i r))
      else
        ∃ o₁ q₁, (applyBatch ⟨c, xs⟩ now).on p = (.ok o₁, q₁) ∧
          ((applyBatch ⟨c, ys⟩ now).on q₁).1 =
            .error (.refused (.rejected (i - xs.length) r)) := by
  cases hoff : p.store.offline with
  | true =>
    have hunavailable := fun xs => on_applyBatch_offline hoff ⟨c, xs⟩ now
    simp [hunavailable]
  | false =>
    cases partsEnd ⟨hnames, hunique⟩ now hnew hmarks hoff with
    | first hi hfirst hwhole =>
      refine ⟨by simp [hfirst, hwhole], fun i r hr => ?_⟩
      rw [hwhole] at hr
      cases hr
      rw [if_pos hi, hfirst]
    | second hfirst hsecond hwhole =>
      refine ⟨by simp [hfirst, hsecond, hwhole], fun i r hr => ?_⟩
      rw [hwhole] at hr
      cases hr
      rw [if_neg (Nat.not_lt.2 (Nat.le_add_right _ _)), Nat.add_sub_cancel_left]
      exact ⟨_, _, hfirst, by rw [hsecond]⟩
    | both hfirst hsecond hwhole =>
      rw [hfirst, hwhole, BatchOutcome.ofEffect_append]
      refine ⟨fun o q => ?_, nofun⟩
      constructor
      · intro h
        cases h
        exact ⟨_, _, _, rfl, hsecond, rfl⟩
      · rintro ⟨o₁, q₁, o₂, h₁, h₂, rfl⟩
        cases h₁
        cases hsecond.symm.trans h₂
        rfl

end Planner

/-! ## A batch on the fork -/

/-- The store of the fork has one contract only. -/
theorem not_has_forkStore {c : ContractId} (hc : c ≠ 1) (id : MilestoneId) :
    ¬forkStore.Has c id := by
  rw [Store.Has, forkStore, Store.records_ofSnapshot, if_neg (Ne.symm hc)]
  exact Bool.false_ne_true

/-- A milestone of the fork goes in one batch and comes back and is completed in the next.  This
adds up to what one batch does. -/
theorem applyBatch_append_fork : forkStore.NamesContracts ∧ forkStore.IdsUnique ∧
    ∃ o₁ q₁ o₂, (Planner.applyBatch ⟨1, forkBatch.mutations.take 1⟩ .epoch).on
        (.withDefaults forkStore) = (.ok o₁, q₁) ∧
      ((Planner.applyBatch ⟨1, forkBatch.mutations.drop 1⟩ .epoch).on q₁).1 = .ok o₂ ∧
      o₁ ++ o₂ = ⟨8, 4, 2, true⟩ := by
  have hunique : forkStore.IdsUnique := Store.idsUnique_ofSnapshot _
  obtain ⟨q, haccepted⟩ : ∃ q, (Planner.applyBatch forkBatch .epoch).on (.withDefaults forkStore) =
      (.ok ⟨8, 4, 2, true⟩, q) := ⟨_, rfl⟩
  have hnew : ∀ m, .createMilestone m ∈ forkBatch.mutations.take 1 ++ forkBatch.mutations.drop 1 →
      ∀ c, c ≠ 1 → ¬(Planner.withDefaults forkStore).store.Has c m.id :=
    fun m _ c hc => not_has_forkStore hc m.id
  have hparts := (Planner.applyBatch_append namesContracts_forkStore hunique rfl hnew .epoch).1
  obtain ⟨o₁, q₁, o₂, hfirst, hsecond, hsum⟩ := (hparts ⟨8, 4, 2, true⟩ q).1 haccepted
  exact ⟨namesContracts_forkStore, hunique, o₁, q₁, o₂, hfirst, by rw [hsecond], hsum.symm⟩

end Milestones
