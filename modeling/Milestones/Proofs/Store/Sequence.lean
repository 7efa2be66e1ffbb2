import Milestones.Proofs.Planner.Ownership

/-!
# Writes together and one by one

The writes of a transaction see each other, so a transaction comes to the same as its writes in
transactions of their own, as long as none of them is refused.  The first one that is refused ends
the transaction with its error, and then nothing is left of the writes before it either: the store
goes on with what it had.

A store that starts empty and takes nothing but transactions keeps every record under its own
identifier and every milestone under the contract that it names, and no journal ever loses an entry.

## Main definitions

* `Store.transact`, `Store.transactAll`: transactions on a store that goes on after a refusal.
* `Store.oneByOne`: the writes of a transaction in transactions of their own.
* `Store.Filed`: every record is where it belongs.

## Main statements

* `ContractRecords.applyAll_eq_error`: where writes fail.
* `ContractRecords.history_of_applyAll`: what they enter in the journal.
* `Store.transact_oneByOne`: a transaction against its writes one by one, and what runs keep.
* `Planner.on_commit`: a planner commits in this way.
-/

namespace Milestones

open Outcome

/-- The entries that a write makes in the journal. -/
def Write.readings : Write → List ProgressReading
  | setProgress update recordedAt => [⟨update.milestoneId, update.percentageComplete, recordedAt⟩]
  | _ => []

/-! ## Records of one contract -/

namespace ContractRecords

variable {r r' : ContractRecords} {w : Write} {ws : List Write}

/-- Writes fail where one of them is refused after those before it. -/
theorem applyAll_eq_error {e : StoreError} : r.applyAll ws = .error e ↔
    ∃ before w after r', ws = before ++ w :: after ∧ r.applyAll before = .ok r' ∧
      r'.apply w = .error e := by
  constructor
  · intro h
    induction ws generalizing r with
    | nil => cases h
    | cons w rest ih =>
      rcases bind_eq_error.1 (applyAll_cons r w rest ▸ h) with h | ⟨r₁, h₁, h⟩
      · exact ⟨[], w, rest, r, rfl, rfl, h⟩
      · obtain ⟨before, w', after, r', rfl, hbefore, hw'⟩ := ih h
        exact ⟨w :: before, w', after, r', rfl, (applyAll_of_apply h₁ before).trans hbefore, hw'⟩
  · rintro ⟨before, w, after, r', rfl, hbefore, hw⟩
    rw [applyAll_append]
    exact bind_eq_error.2 (.inr ⟨r', hbefore, bind_eq_error.2 (.inl hw)⟩)

theorem history_of_changeMilestone {id : MilestoneId} {change : Milestone → Milestone}
    (h : r.changeMilestone id change = .ok r') : r'.history = r.history := by
  obtain ⟨m, -, rfl⟩ := changeMilestone_eq_ok h
  rfl

theorem history_of_apply (h : r.apply w = .ok r') : r'.history = r.history ++ w.readings := by
  cases w with
  | setStatus ids status =>
    refine Eq.trans ?_ (List.append_nil _).symm
    exact foldlM_invariant (fun x => x.history = r.history)
      (fun _ _ _ hx h => (history_of_changeMilestone h).trans hx) rfl h
  | setProgress update recordedAt =>
    obtain ⟨r₁, h₁, h⟩ := bind_eq_ok.1 h
    cases h
    exact congrArg (· ++ _) (history_of_changeMilestone h₁)
  | replaceMilestone m =>
    obtain ⟨-, -, rfl⟩ := apply_replaceMilestone_eq_ok h
    exact (List.append_nil _).symm
  | _ =>
    simp only [apply] at h
    repeat' split at h
    all_goals cases h
    all_goals exact (List.append_nil _).symm

/-- The journal grows at its end, by the readings among the writes. -/
theorem history_of_applyAll (h : r.applyAll ws = .ok r') :
    r'.history = r.history ++ ws.flatMap Write.readings := by
  induction ws generalizing r with
  | nil =>
    cases h
    exact (List.append_nil _).symm
  | cons w rest ih =>
    obtain ⟨r₁, h₁, h⟩ := bind_eq_ok.1 (applyAll_cons r w rest ▸ h)
    rw [ih h, history_of_apply h₁, List.append_assoc, List.flatMap_cons]

end ContractRecords

/-! ## Transactions in a row -/

namespace Store

/-- A transaction on a store that goes on after it: the answer, and the store as it is left.  What is
refused leaves the store as it was. -/
def transact (s : Store) (c : ContractId) (ws : List Write) : Except StoreError Unit × Store :=
  match s.apply c ws with
  | .ok s' => (.ok (), s')
  | .error e => (.error e, s)

/-- Transactions one after the other: the answers, and the store as it is left. -/
def transactAll (s : Store) : List (ContractId × List Write) → List (Except StoreError Unit) × Store
  | [] => ([], s)
  | (c, ws) :: rest =>
    let (answer, s) := s.transact c ws
    let (answers, s) := s.transactAll rest
    (answer :: answers, s)

/-- Each write in a transaction of its own. -/
def oneByOne (c : ContractId) (ws : List Write) : List (ContractId × List Write) :=
  ws.map fun w => (c, [w])

variable {s : Store} {c : ContractId} {ws : List Write} {r : ContractRecords} {e : StoreError}

theorem transactAll_cons (s : Store) (c : ContractId) (ws : List Write)
    (rest : List (ContractId × List Write)) :
    s.transactAll ((c, ws) :: rest) =
      ((s.transact c ws).1 :: ((s.transact c ws).2.transactAll rest).1,
        ((s.transact c ws).2.transactAll rest).2) := rfl

theorem transactAll_append (s : Store) (ts ts' : List (ContractId × List Write)) :
    s.transactAll (ts ++ ts') =
      ((s.transactAll ts).1 ++ ((s.transactAll ts).2.transactAll ts').1,
        ((s.transactAll ts).2.transactAll ts').2) := by
  induction ts generalizing s with
  | nil => rfl
  | cons t rest ih => rw [List.cons_append, transactAll_cons, transactAll_cons, ih, List.cons_append]

/-- What every transaction that succeeds keeps, a run keeps. -/
theorem transactAll_invariant (P : Store → Prop)
    (step : ∀ s c ws s', P s → s.apply c ws = .ok s' → P s') (hs : P s)
    (ts : List (ContractId × List Write)) : P (s.transactAll ts).2 := by
  induction ts generalizing s with
  | nil => exact hs
  | cons t rest ih =>
    obtain ⟨c, ws⟩ := t
    rw [transactAll_cons]
    refine ih ?_
    rw [transact]
    cases h : s.apply c ws with
    | ok s' => exact step s c ws s' hs h
    | error e => exact hs

theorem transact_of_applyAll (honline : s.offline = false)
    (h : (s.records c).applyAll ws = .ok r) :
    s.transact c ws = (.ok (), { s with contracts := s.contracts.insert r }) := by
  rw [transact, apply_eq_ok.2 ⟨honline, r, h, rfl⟩]

theorem transact_of_error (honline : s.offline = false)
    (h : (s.records c).applyAll ws = .error e) : s.transact c ws = (.error e, s) := by
  have happly : s.apply c ws = .error e := by
    rw [apply, checkOnline, honline, h]
    rfl
  rw [transact, happly]

/-! ### One by one -/

/-- Writes that succeed together succeed one by one, and lead to the same records. -/
theorem oneByOne_of_applyAll (honline : s.offline = false)
    (h : (s.records c).applyAll ws = .ok r) :
    (∀ a ∈ (s.transactAll (oneByOne c ws)).1, a = .ok ()) ∧
      (s.transactAll (oneByOne c ws)).2.offline = false ∧
      ∀ c', (s.transactAll (oneByOne c ws)).2.records c' = if c = c' then r else s.records c' := by
  induction ws generalizing s with
  | nil =>
    cases h
    refine ⟨List.forall_mem_nil _, honline, fun c' => ?_⟩
    split
    · rename_i hc
      rw [hc]
      rfl
    · rfl
  | cons w rest ih =>
    obtain ⟨r₁, h₁, h⟩ := bind_eq_ok.1 (ContractRecords.applyAll_cons _ w rest ▸ h)
    have hcontract : r₁.contractId = c :=
      (ContractRecords.contractId_of_apply h₁).trans (s.contractId_records c)
    have hfirst := transact_of_applyAll honline
      ((ContractRecords.applyAll_of_apply h₁ []).trans (ContractRecords.applyAll_nil r₁))
    -- The next write finds what the first one has left.
    have hrecords := s.records_insert r₁
    rw [hcontract] at hrecords
    rw [oneByOne, List.map_cons, transactAll_cons, hfirst]
    obtain ⟨hanswers, honline', hrest⟩ :=
      ih (s := { s with contracts := s.contracts.insert r₁ }) honline (by rwa [hrecords, if_pos rfl])
    refine ⟨List.forall_mem_cons.2 ⟨rfl, hanswers⟩, honline', fun c' => (hrest c').trans ?_⟩
    rw [hrecords]
    split <;> rfl

/-- Writes that fail together fail one by one, at first with the same error. -/
theorem oneByOne_of_error (honline : s.offline = false)
    (h : (s.records c).applyAll ws = .error e) :
    ∃ before w after, ws = before ++ w :: after ∧
      (∀ a ∈ (s.transactAll (oneByOne c before)).1, a = .ok ()) ∧
      ((s.transactAll (oneByOne c before)).2.transact c [w]).1 = .error e := by
  obtain ⟨before, w, after, r', rfl, hbefore, hw⟩ := ContractRecords.applyAll_eq_error.1 h
  obtain ⟨hanswers, honline', hrecords⟩ := oneByOne_of_applyAll honline hbefore
  refine ⟨before, w, after, rfl, hanswers, ?_⟩
  have hsingle : ((s.transactAll (oneByOne c before)).2.records c).applyAll [w] = .error e := by
    rw [hrecords, if_pos rfl]
    exact bind_eq_error.2 (.inl hw)
  rw [transact_of_error honline' hsingle]

/-! ### Runs -/

/-- Every record is found under its own identifier, and every milestone under the contract that it
names. -/
structure Filed (s : Store) : Prop where
  milestone : ∀ c id m, (s.records c).milestones.get? id = some m → m.id = id ∧ m.contractId = c
  dependency : ∀ c id x, (s.records c).dependencies.get? id = some x → x.id = id

theorem NamesContracts.filed (h : s.NamesContracts) : s.Filed where
  milestone c _ m hm := ⟨Table.recordId_of_get? hm, h c m (Table.mem_of_get? hm)⟩
  dependency _ _ _ hx := Table.recordId_of_get? hx

theorem history_of_transactAll (s : Store) (ts : List (ContractId × List Write)) (c : ContractId) :
    (s.records c).history <+: ((s.transactAll ts).2.records c).history := by
  refine transactAll_invariant (fun x => (s.records c).history <+: (x.records c).history)
    (fun x c₁ ws x' hx h => hx.trans ?_) List.prefix_rfl ts
  obtain ⟨r, hr, hrecords⟩ := records_of_apply h
  rw [hrecords]
  split
  · rename_i hc
    rw [← hc, ContractRecords.history_of_applyAll hr]
    exact List.prefix_append _ _
  · exact List.prefix_rfl

/-- On a store that is online, a transaction succeeds exactly if its writes succeed one by one, and
then both leave the same records of every contract.  Otherwise it fails with the error of the first
write that is refused so, and leaves the records of every contract as they were.  And whatever
transactions an empty store takes, every record is filed where it belongs, and more transactions only
append to the journals. -/
theorem transact_oneByOne (honline : s.offline = false) (c : ContractId) (ws : List Write) :
    ((s.transact c ws).1 = .ok () ↔ ∀ a ∈ (s.transactAll (oneByOne c ws)).1, a = .ok ()) ∧
      ((s.transact c ws).1 = .ok () → ∀ c',
        (s.transact c ws).2.records c' = (s.transactAll (oneByOne c ws)).2.records c') ∧
      (∀ e, (s.transact c ws).1 = .error e →
        (∃ before w after, ws = before ++ w :: after ∧
          (∀ a ∈ (s.transactAll (oneByOne c before)).1, a = .ok ()) ∧
          ((s.transactAll (oneByOne c before)).2.transact c [w]).1 = .error e) ∧
        ∀ c', (s.transact c ws).2.records c' = s.records c') ∧
      ∀ s₀ : Store, s₀.contracts = .empty → ∀ ts ts' : List (ContractId × List Write),
        (s₀.transactAll ts).2.Filed ∧ ∀ c',
          ((s₀.transactAll ts).2.records c').history <+:
            ((s₀.transactAll (ts ++ ts')).2.records c').history := by
  have hruns : ∀ s₀ : Store, s₀.contracts = .empty → ∀ ts ts' : List (ContractId × List Write),
      (s₀.transactAll ts).2.Filed ∧ ∀ c',
        ((s₀.transactAll ts).2.records c').history <+:
          ((s₀.transactAll (ts ++ ts')).2.records c').history := by
    intro s₀ hempty ts ts'
    have hstart : s₀.NamesContracts := by
      intro c m hm
      rw [records, hempty] at hm
      cases hm
    refine ⟨(transactAll_invariant NamesContracts (fun _ _ _ _ h => h.apply) hstart ts).filed,
      fun c' => ?_⟩
    rw [transactAll_append]
    exact history_of_transactAll _ ts' c'
  cases h : (s.records c).applyAll ws with
  | ok r =>
    have htogether := transact_of_applyAll honline h
    obtain ⟨hanswers, -, hrecords⟩ := oneByOne_of_applyAll honline h
    have hcontract : r.contractId = c :=
      (ContractRecords.contractId_of_applyAll h).trans (s.contractId_records c)
    rw [htogether]
    refine ⟨iff_of_true rfl hanswers, fun _ c' => ?_, fun e he => ?_, hruns⟩
    · rw [records_insert, hcontract, hrecords]
    · cases he
  | error e =>
    have htogether := transact_of_error honline h
    obtain ⟨before, w, after, hws, hbefore, hw⟩ := oneByOne_of_error honline h
    rw [htogether]
    refine ⟨⟨fun hok => ?_, fun hall => ?_⟩, fun hok => ?_, fun e' he' => ⟨?_, fun _ => rfl⟩, hruns⟩
    · cases hok
    · rw [hws, oneByOne, List.map_append, transactAll_append] at hall
      have hanswer := hall _ (List.mem_append_right _ List.mem_cons_self)
      cases hw.symm.trans hanswer
    · cases hok
    · cases he'
      exact ⟨before, w, after, hws, hbefore, hw⟩

/-- A reading, and then a change of two statuses, for the second of which there is no milestone. -/
def halted : List Write :=
  [.setProgress ⟨1, 40⟩ .epoch, .setStatus [2, 9] .blocked, .deleteMilestone 3]

/-- In the store of the fork, the first write succeeds together and by itself.  The second one fails
both ways, and as a transaction the three of them leave no trace. -/
theorem transact_oneByOne_halted : forkStore.offline = false ∧
    (∀ c, (forkStore.transact 1 (halted.take 1)).2.records c =
      (forkStore.transactAll (oneByOne 1 (halted.take 1))).2.records c) ∧
    (forkStore.transact 1 halted).1 = .error (.milestoneNotFound 9) ∧
    (∃ a ∈ (forkStore.transactAll (oneByOne 1 halted)).1, a ≠ .ok ()) ∧
    ∀ c, (forkStore.transact 1 halted).2.records c = forkStore.records c := by
  have honline : forkStore.offline = false := rfl
  have hfails : (forkStore.transact 1 halted).1 = .error (.milestoneNotFound 9) := rfl
  obtain ⟨-, hsame, -⟩ := transact_oneByOne honline 1 (halted.take 1)
  obtain ⟨hiff, -, htrace, -⟩ := transact_oneByOne honline 1 halted
  refine ⟨honline, hsame rfl, hfails, ?_, (htrace _ hfails).2⟩
  by_contra hall
  push Not at hall
  cases hfails.symm.trans (hiff.2 hall)

end Store

/-! ## The planner -/

/-- A planner commits a transaction to its store, and reports a refusal. -/
theorem Planner.on_commit (p : Planner) (c : ContractId) (ws : List Write) :
    (Run.commit c ws).on p =
      ((p.store.transact c ws).1.mapError fun e => .refused (.store e),
        { p with store := (p.store.transact c ws).2 }) := by
  rw [Store.transact]
  cases h : p.store.apply c ws with
  | ok s => exact on_commit_of_ok h
  | error e => exact on_commit_of_error h

end Milestones
