import Milestones.Proofs.Outcome
import Milestones.Proofs.Table
import Milestones.Store

/-!
# Transactions

A transaction that succeeds puts new records in the place of those of its contract.  It does not
reach any other contract.

## Main definitions

* `ContractRecords.NamesContract`: every milestone names the contract of the records.

## Main statements

* `Store.apply_eq_ok`: when a transaction succeeds, and with what.
* `Store.records_of_apply`: the records of every contract afterwards.
* `ContractRecords.applyAll_append`: writes in two groups.
-/

namespace Milestones

open Outcome

namespace ContractRecords

@[simp] theorem applyAll_nil (r : ContractRecords) : r.applyAll [] = .ok r := rfl

theorem applyAll_cons (r : ContractRecords) (w : Write) (ws : List Write) :
    r.applyAll (w :: ws) = r.apply w >>= fun r => r.applyAll ws := rfl

theorem applyAll_append (r : ContractRecords) (ws ws' : List Write) :
    r.applyAll (ws ++ ws') = r.applyAll ws >>= fun r => r.applyAll ws' :=
  List.foldlM_append

/-- Writes go on from where the first one leads. -/
theorem applyAll_of_apply {r r' : ContractRecords} {w : Write} (h : r.apply w = .ok r')
    (ws : List Write) : r.applyAll (w :: ws) = r'.applyAll ws := by
  rw [applyAll_cons, h]
  rfl

theorem changeMilestone_eq_ok {r r' : ContractRecords} {id : MilestoneId}
    {change : Milestone → Milestone} (h : r.changeMilestone id change = .ok r') :
    ∃ m, r.milestones.get? id = some m ∧
      r' = { r with milestones := r.milestones.insert (change m) } := by
  rw [changeMilestone] at h
  split at h
  · cases h
  · rename_i m hm
    cases h
    exact ⟨m, hm, rfl⟩

/-- A milestone of the contract that is there can be replaced. -/
theorem apply_replaceMilestone {r : ContractRecords} {m : Milestone}
    (hcontract : m.contractId = r.contractId) (hcontains : r.milestones.contains m.id = true) :
    r.apply (.replaceMilestone m) = .ok { r with milestones := r.milestones.insert m } := by
  obtain ⟨old, hold⟩ := Table.contains_iff_get?.1 hcontains
  simp [apply, hcontract, changeMilestone, hold]

/-- Nothing else is replaced. -/
theorem apply_replaceMilestone_eq_ok {r r' : ContractRecords} {m : Milestone}
    (h : r.apply (.replaceMilestone m) = .ok r') :
    m.contractId = r.contractId ∧ r.milestones.contains m.id = true ∧
      r' = { r with milestones := r.milestones.insert m } := by
  rw [apply] at h
  split at h
  · cases h
  rename_i hcontract
  obtain ⟨old, hold, rfl⟩ := changeMilestone_eq_ok h
  exact ⟨not_not.1 hcontract, Table.contains_iff_get?.2 ⟨old, hold⟩, rfl⟩

/-- What the replacement of each of several milestones keeps, the replacement of all keeps. -/
theorem applyAll_replaceMilestone_invariant {P : ContractRecords → Prop} {ms : List Milestone}
    (step : ∀ m ∈ ms, ∀ r : ContractRecords, m.contractId = r.contractId →
      r.milestones.contains m.id = true → P r → P { r with milestones := r.milestones.insert m })
    {r r' : ContractRecords} (hr : P r)
    (h : r.applyAll (ms.map .replaceMilestone) = .ok r') : P r' := by
  refine foldlM_invariant_of_mem P (fun w hw r r' hr h => ?_) hr h
  obtain ⟨m, hm, rfl⟩ := List.mem_map.1 hw
  obtain ⟨hcontract, hcontains, rfl⟩ := apply_replaceMilestone_eq_ok h
  exact step m hm r hcontract hcontains hr

/-- Dependencies that are there can be deleted one after the other. -/
theorem applyAll_deleteDependency {r : ContractRecords} {ids : List DependencyId}
    (hnodup : ids.Nodup) (hcontains : ∀ id ∈ ids, r.dependencies.contains id = true) :
    r.applyAll (ids.map .deleteDependency) =
      .ok { r with dependencies := ids.foldl Table.erase r.dependencies } := by
  induction ids generalizing r with
  | nil => rfl
  | cons first rest ih =>
    obtain ⟨hfirst, hrest⟩ := List.nodup_cons.1 hnodup
    have happly : r.apply (.deleteDependency first) =
        .ok { r with dependencies := r.dependencies.erase first } := by
      rw [apply, if_pos (hcontains first List.mem_cons_self)]
    rw [List.map_cons, applyAll_of_apply happly, ih hrest fun id hid => ?_]
    · rfl
    · refine Table.contains_erase.2 ⟨?_, hcontains id (List.mem_cons_of_mem _ hid)⟩
      rintro rfl
      exact hfirst hid

theorem contractId_of_changeMilestone {r r' : ContractRecords} {id : MilestoneId}
    {change : Milestone → Milestone} (h : r.changeMilestone id change = .ok r') :
    r'.contractId = r.contractId := by
  obtain ⟨m, -, rfl⟩ := changeMilestone_eq_ok h
  rfl

/-- No write takes the records to another contract. -/
theorem contractId_of_apply {r r' : ContractRecords} {w : Write} (h : r.apply w = .ok r') :
    r'.contractId = r.contractId := by
  cases w with
  | setStatus ids status =>
    exact foldlM_invariant (fun x => x.contractId = r.contractId)
      (fun _ _ _ hx h => (contractId_of_changeMilestone h).trans hx) rfl h
  | setProgress update recordedAt =>
    obtain ⟨r₁, h₁, h⟩ := bind_eq_ok.1 h
    cases h
    exact (contractId_of_changeMilestone h₁ :)
  | replaceMilestone m =>
    obtain ⟨-, -, rfl⟩ := apply_replaceMilestone_eq_ok h
    rfl
  | _ =>
    simp only [apply] at h
    repeat' split at h
    all_goals cases h
    all_goals rfl

theorem contractId_of_applyAll {r r' : ContractRecords} {ws : List Write}
    (h : r.applyAll ws = .ok r') : r'.contractId = r.contractId :=
  foldlM_invariant (fun x => x.contractId = r.contractId)
    (fun _ _ _ hx h => (contractId_of_apply h).trans hx) rfl h

/-- Writes that are not refused replace milestones by such as name the contract. -/
theorem contractId_of_replaceMilestone {r r' : ContractRecords} {ws : List Write}
    (h : r.applyAll ws = .ok r') {m : Milestone} (hm : .replaceMilestone m ∈ ws) :
    m.contractId = r.contractId := by
  induction ws generalizing r with
  | nil => cases hm
  | cons w rest ih =>
    obtain ⟨r₁, h₁, h⟩ := bind_eq_ok.1 (applyAll_cons r w rest ▸ h)
    rcases List.mem_cons.1 hm with rfl | hm
    · exact (apply_replaceMilestone_eq_ok h₁).1
    · rw [ih h hm, contractId_of_apply h₁]

/-- Every milestone of the records names their contract. -/
def NamesContract (r : ContractRecords) : Prop :=
  ∀ m ∈ r.milestones.toList, m.contractId = r.contractId

theorem NamesContract.insert {r : ContractRecords} (h : r.NamesContract) {m : Milestone}
    (hm : m.contractId = r.contractId) :
    ({ r with milestones := r.milestones.insert m } : ContractRecords).NamesContract := by
  intro x hx
  rcases Table.mem_toList_insert.1 hx with rfl | ⟨hx, -⟩
  · exact hm
  · exact h x hx

theorem NamesContract.changeMilestone {r r' : ContractRecords} (h : r.NamesContract)
    {id : MilestoneId} {change : Milestone → Milestone}
    (hchange : ∀ m, (change m).contractId = m.contractId)
    (hr' : r.changeMilestone id change = .ok r') : r'.NamesContract := by
  obtain ⟨m, hm, rfl⟩ := changeMilestone_eq_ok hr'
  exact h.insert ((hchange m).trans (h m (Table.mem_of_get? hm)))

/-- A write that would bring in a milestone of another contract is refused. -/
theorem NamesContract.apply {r r' : ContractRecords} (h : r.NamesContract) {w : Write}
    (hr' : r.apply w = .ok r') : r'.NamesContract := by
  cases w with
  | insertMilestone m =>
    simp only [ContractRecords.apply] at hr'
    split at hr'
    · cases hr'
    rename_i hcontract
    split at hr'
    · cases hr'
    · cases hr'
      exact h.insert (not_not.1 hcontract)
  | replaceMilestone m =>
    obtain ⟨hcontract, -, rfl⟩ := apply_replaceMilestone_eq_ok hr'
    exact h.insert hcontract
  | deleteMilestone id =>
    simp only [ContractRecords.apply] at hr'
    split at hr'
    · cases hr'
      exact fun m hm => h m (Table.mem_toList_erase.1 hm).1
    · cases hr'
  | insertDependency e =>
    simp only [ContractRecords.apply] at hr'
    split at hr'
    · cases hr'
    · cases hr'
      exact h
  | deleteDependency id =>
    simp only [ContractRecords.apply] at hr'
    split at hr'
    · cases hr'
      exact h
    · cases hr'
  | setStatus ids status =>
    refine foldlM_invariant NamesContract (fun x id x' hx hx' => ?_) h hr'
    refine hx.changeMilestone ?_ hx'
    exact fun _ => rfl
  | setProgress update recordedAt =>
    obtain ⟨r₁, h₁, hr'⟩ := bind_eq_ok.1 hr'
    cases hr'
    have hchanged : r₁.NamesContract := by
      refine h.changeMilestone ?_ h₁
      exact fun _ => rfl
    exact hchanged

theorem NamesContract.applyAll {r r' : ContractRecords} (h : r.NamesContract) {ws : List Write}
    (hr' : r.applyAll ws = .ok r') : r'.NamesContract :=
  foldlM_invariant NamesContract (fun _ _ _ hx hx' => hx.apply hx') h hr'

end ContractRecords

namespace Store

@[simp] theorem contractId_records (s : Store) (c : ContractId) :
    (s.records c).contractId = c := by
  rw [records]
  cases hget : s.contracts.get? c with
  | none => rfl
  | some r => exact Table.recordId_of_get? hget

theorem records_of_mem {s : Store} {r : ContractRecords} (h : r ∈ s.contracts.toList) :
    s.records r.contractId = r := by
  have hget : s.contracts.get? r.contractId = some r := Table.mem_toList_iff_get?.1 h
  rw [records, hget]
  rfl

/-- A contract with a milestone is stored, because records that were never written have none. -/
theorem exists_mem_contracts {s : Store} {c : ContractId} {id : MilestoneId} {m : Milestone}
    (h : (s.records c).milestones.get? id = some m) :
    ∃ r ∈ s.contracts.toList, r.contractId = c := by
  rw [records] at h
  cases hget : s.contracts.get? c with
  | none =>
    rw [hget] at h
    cases h
  | some r => exact ⟨r, Table.mem_of_get? hget, Table.recordId_of_get? hget⟩

/-- The store is online and the writes succeed. -/
theorem apply_eq_ok {s s' : Store} {c : ContractId} {ws : List Write} :
    s.apply c ws = .ok s' ↔ s.offline = false ∧
      ∃ r, (s.records c).applyAll ws = .ok r ∧
        s' = { s with contracts := s.contracts.insert r } := by
  rw [apply, checkOnline]
  cases s.offline with
  | true => simp [bind, Except.bind]
  | false =>
    simp only [Bool.false_eq_true, if_false, true_and]
    rw [bind_eq_ok]
    constructor
    · rintro ⟨_, -, h⟩
      obtain ⟨r, hr, h⟩ := bind_eq_ok.1 h
      cases h
      exact ⟨r, hr, rfl⟩
    · rintro ⟨r, hr, rfl⟩
      exact ⟨(), rfl, bind_eq_ok.2 ⟨r, hr, rfl⟩⟩

/-- Records in the place of those of their contract. -/
theorem records_insert (s : Store) (r : ContractRecords) (c : ContractId) :
    { s with contracts := s.contracts.insert r : Store }.records c =
      if r.contractId = c then r else s.records c := by
  rw [records, Table.get?_insert]
  change (if r.contractId = c then some r else s.contracts.get? c).getD _ = _
  split <;> rfl

/-- A transaction changes the records of its contract and leaves all others as they are. -/
theorem records_of_apply {s s' : Store} {c : ContractId} {ws : List Write}
    (h : s.apply c ws = .ok s') :
    ∃ r, (s.records c).applyAll ws = .ok r ∧
      ∀ c', s'.records c' = if c = c' then r else s.records c' := by
  obtain ⟨-, r, hr, rfl⟩ := apply_eq_ok.1 h
  have hcontract := ContractRecords.contractId_of_applyAll hr
  rw [contractId_records] at hcontract
  refine ⟨r, hr, fun c' => ?_⟩
  rw [records_insert, hcontract]

/-- A store of one snapshot has the records of that snapshot and no others. -/
theorem records_ofSnapshot (snapshot : Snapshot) {hashing : Hashing} (c : ContractId) :
    (ofSnapshot snapshot hashing).records c =
      if snapshot.contractId = c then .ofSnapshot snapshot else { contractId := c } :=
  records_insert { hashing := hashing } (.ofSnapshot snapshot) c

theorem loadMilestones_eq_ok {s : Store} {c : ContractId} {milestones : List Milestone} :
    s.loadMilestones c = .ok milestones ↔
      s.offline = false ∧ milestones = (s.records c).milestones.toList := by
  cases h : s.offline <;> simp [loadMilestones, checkOnline, h, bind, Except.bind, eq_comm]

theorem loadDependencies_eq_ok {s : Store} {c : ContractId} {dependencies : List Dependency} :
    s.loadDependencies c = .ok dependencies ↔
      s.offline = false ∧ dependencies = (s.records c).dependencies.toList := by
  cases h : s.offline <;> simp [loadDependencies, checkOnline, h, bind, Except.bind, eq_comm]

end Store

end Milestones
