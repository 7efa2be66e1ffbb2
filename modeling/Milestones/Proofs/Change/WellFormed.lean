import Milestones.Proofs.Change.Commit
import Milestones.Proofs.Graph.Records

/-!
# Well-formed records

The records of a contract are in order when they name it, every dependency joins two of its
milestones, no two say the same, no milestone waits for itself, however indirectly, and no planned
duration is negative.  Such records always make a graph, and the graph always has an order of work.

Every step of planning keeps records in order.  Only a new dependency could close a cycle, and only
the removal of a milestone could leave a dependency without an end; the first is checked on the
graph that would result, the second takes the dependencies at the milestone with it.

## Main definitions

* `ContractRecords.WellFormed`: the records of a contract are in order.
* `ContractRecords.graph`: the graph that they make.

## Main statements

* `Draft.Step.wellFormed`: every step of planning keeps records in order.
* `ContractRecords.WellFormed.exists_graph`: records in order make a graph without cycles.
-/

namespace Milestones

open Outcome

namespace ContractRecords

/-- The records name the contract and each milestone its identifier, dependencies join two
milestones of the contract and no two join the same ones in the same way, there is no cycle of one
or more dependencies, and no planned duration is negative. -/
structure WellFormed (r : ContractRecords) : Prop where
  named : ∀ id m, r.milestones.get? id = some m → m.id = id ∧ m.contractId = r.contractId
  ends : ∀ e ∈ r.dependencies.toList,
    r.milestones.contains e.milestoneId = true ∧ r.milestones.contains e.dependsOnId = true
  distinct : ∀ e ∈ r.dependencies.toList, ∀ e' ∈ r.dependencies.toList,
    e.milestoneId = e'.milestoneId → e.dependsOnId = e'.dependsOnId → e.kind = e'.kind → e = e'
  acyclic : RecordsAcyclic r.dependencies.toList
  zero_le_duration : ∀ m ∈ r.milestones.toList, ∀ span ∈ m.estimatedDuration, .zero ≤ span

namespace WellFormed

variable {r : ContractRecords} (h : r.WellFormed)
include h

theorem namesContract : r.NamesContract :=
  fun m hm => (h.named _ m (Table.mem_toList_iff_get?.1 hm)).2

theorem zero_le_plannedDuration {m : Milestone} (hm : m ∈ r.milestones.toList) :
    .zero ≤ m.plannedDuration := by
  rw [Milestone.plannedDuration]
  cases hspan : m.estimatedDuration with
  | none => exact Int.le_refl 0
  | some span => exact h.zero_le_duration m hm span hspan

/-- The journal does not matter. -/
theorem with_history (history : List ProgressReading) :
    ({ r with history := history } : ContractRecords).WellFormed := { h with }

/-- A milestone of the contract may come, or take the place of another one, unless its planned
duration is negative. -/
theorem insert_milestone {m : Milestone} (hcontract : m.contractId = r.contractId)
    (hduration : ∀ span ∈ m.estimatedDuration, .zero ≤ span) :
    ({ r with milestones := r.milestones.insert m } : ContractRecords).WellFormed where
  named := by
    intro id x hx
    rw [Table.get?_insert] at hx
    split at hx
    · rename_i hid
      cases hx
      exact ⟨hid, hcontract⟩
    · exact h.named id x hx
  ends := by
    intro e he
    obtain ⟨hdependent, hprerequisite⟩ := h.ends e he
    exact ⟨Table.contains_insert.2 (.inr hdependent), Table.contains_insert.2 (.inr hprerequisite)⟩
  distinct := h.distinct
  acyclic := h.acyclic
  zero_le_duration := by
    intro x hx
    rcases Table.mem_toList_insert.1 hx with rfl | ⟨hx, -⟩
    · exact hduration
    · exact h.zero_le_duration x hx

/-- Fewer dependencies are in order as well. -/
theorem mono_dependencies {dependencies : Table Dependency}
    (hsub : ∀ e ∈ dependencies.toList, e ∈ r.dependencies.toList) :
    ({ r with dependencies := dependencies } : ContractRecords).WellFormed where
  named := h.named
  ends := fun e he => h.ends e (hsub e he)
  distinct := fun e he e' he' => h.distinct e (hsub e he) e' (hsub e' he')
  acyclic := h.acyclic.mono hsub
  zero_le_duration := h.zero_le_duration

/-- A milestone may go if no dependency is at it. -/
theorem erase_milestone {id : MilestoneId}
    (hfree : ∀ e ∈ r.dependencies.toList, e.touches id = false) :
    ({ r with milestones := r.milestones.erase id } : ContractRecords).WellFormed where
  named := by
    intro id' x hx
    rw [Table.get?_erase] at hx
    split at hx
    · cases hx
    · exact h.named id' x hx
  ends := by
    intro e he
    obtain ⟨hdependent, hprerequisite⟩ := h.ends e he
    have hne := hfree e he
    simp only [Dependency.touches, Bool.or_eq_false_iff, beq_eq_false_iff_ne] at hne
    exact ⟨Table.contains_erase.2 ⟨hne.1.symm, hdependent⟩,
      Table.contains_erase.2 ⟨hne.2.symm, hprerequisite⟩⟩
  distinct := h.distinct
  acyclic := h.acyclic
  zero_le_duration := fun m hm => h.zero_le_duration m (Table.mem_toList_erase.1 hm).1

/-- A dependency between milestones of the contract may come if it says something new and closes
no cycle. -/
theorem insert_dependency {e : Dependency}
    (hends : r.milestones.contains e.milestoneId = true ∧
      r.milestones.contains e.dependsOnId = true)
    (hnew : ∀ x ∈ r.dependencies.toList, x.milestoneId = e.milestoneId →
      x.dependsOnId = e.dependsOnId → x.kind ≠ e.kind)
    (hacyclic : RecordsAcyclic (r.dependencies.toList ++ [e])) :
    ({ r with dependencies := r.dependencies.insert e } : ContractRecords).WellFormed where
  named := h.named
  ends := by
    intro x hx
    rcases Table.mem_toList_insert.1 hx with rfl | ⟨hx, -⟩
    · exact hends
    · exact h.ends x hx
  distinct := by
    intro x hx y hy hdependent hprerequisite hkind
    rcases Table.mem_toList_insert.1 hx with rfl | ⟨hxold, -⟩ <;>
      rcases Table.mem_toList_insert.1 hy with rfl | ⟨hyold, -⟩
    · rfl
    · exact absurd hkind.symm (hnew y hyold hdependent.symm hprerequisite.symm)
    · exact absurd hkind (hnew x hxold hdependent hprerequisite)
    · exact h.distinct x hxold y hyold hdependent hprerequisite hkind
  acyclic := by
    refine hacyclic.mono fun x hx => ?_
    rcases Table.mem_toList_insert.1 hx with rfl | ⟨hx, -⟩
    · simp
    · exact List.mem_append_left _ hx
  zero_le_duration := h.zero_le_duration

end WellFormed

end ContractRecords

/-! ## Planning -/

namespace Draft

/-- The checks of a new dependency rule out that it closes a cycle. -/
theorem Admits.recordsAcyclic {d : Draft} {e : Dependency} (h : d.Admits e) :
    RecordsAcyclic (d.dependencies.toList ++ [e]) := by
  obtain ⟨g, o, hg, ho⟩ := h.ordered
  have hholds := Graph.holds_of_ofRecords hg
  have hacyclic := (Graph.exists_workOrder_iff hholds.linked).1 ⟨o, ho⟩
  rwa [hholds.linked.acyclic_iff, hholds.edges_eq] at hacyclic

variable {now : Instant} {d d' : Draft}

/-- A milestone of the draft may be replaced, unless its planned duration turns negative. -/
theorem wellFormed_put {history : List ProgressReading} (h : (d.records history).WellFormed)
    {id : MilestoneId} {m m' : Milestone} (hfind : d.find id = .ok m)
    (hcontract : m'.contractId = m.contractId)
    (hduration : ∀ span ∈ m'.estimatedDuration, .zero ≤ span) :
    ((d.put m').records history).WellFormed := by
  refine h.insert_milestone ?_ hduration
  exact hcontract.trans (h.namesContract m (Table.mem_of_get? (get?_of_find hfind)))

/-- What is planned for a milestone of the draft is not negative. -/
theorem zero_le_duration_of_find {history : List ProgressReading}
    (h : (d.records history).WellFormed) {id : MilestoneId} {m : Milestone}
    (hfind : d.find id = .ok m) : ∀ span ∈ m.estimatedDuration, .zero ≤ span :=
  h.zero_le_duration m (Table.mem_of_get? (get?_of_find hfind))

/-- Every step of planning keeps records in order. -/
theorem Step.wellFormed {x : Mutation} {ws : List Write} (hstep : Step now d x ws d')
    {history : List ProgressReading} (h : (d.records history).WellFormed) :
    (d'.records history).WellFormed := by
  cases hstep with
  | keep => exact h
  | move hfind _ hmove =>
    have hsame := Milestone.sameButStanding_of_moveTo hmove
    refine wellFormed_put h hfind hsame.contractId_eq ?_
    rw [hsame.estimatedDuration_eq]
    exact zero_le_duration_of_find h hfind
  | record hfind hrecord =>
    have hsame := Milestone.sameButStanding_of_recordProgress hrecord
    refine wellFormed_put h hfind hsame.contractId_eq ?_
    rw [hsame.estimatedDuration_eq]
    exact zero_le_duration_of_find h hfind
  | create hcontract _ _ hduration => exact h.insert_milestone hcontract hduration
  | @edit m edit hfind hduration =>
    refine wellFormed_put h hfind (edit.contractId_apply m) fun span hspan => ?_
    rw [MilestoneEdit.estimatedDuration_apply, Option.mem_def, Option.or_eq_some_iff] at hspan
    rcases hspan with hspan | ⟨-, hspan⟩
    · exact hduration span hspan
    · exact zero_le_duration_of_find h hfind span hspan
  | @delete m hfind =>
    have hfewer : ({ d.records history with
        dependencies := d.dependencies.filter fun e => !e.touches m.id } :
          ContractRecords).WellFormed :=
      h.mono_dependencies fun e he => (Table.mem_toList_filter.1 he).1
    refine hfewer.erase_milestone fun e he => ?_
    simpa using (Table.mem_toList_filter.1 he).2
  | join hadmits =>
    obtain ⟨m, hm⟩ := hadmits.find_dependent
    obtain ⟨n, hn⟩ := hadmits.find_prerequisite
    refine h.insert_dependency ⟨?_, ?_⟩ hadmits.new hadmits.recordsAcyclic
    · exact Table.contains_iff_get?.2 ⟨m, (find_eq_ok.1 hm).2⟩
    · exact Table.contains_iff_get?.2 ⟨n, (find_eq_ok.1 hn).2⟩
  | part =>
    exact h.mono_dependencies fun e he => (Table.mem_toList_erase.1 he).1

end Draft

/-! ## What the records make -/

namespace ContractRecords

/-- The graph of the records. -/
def graph (r : ContractRecords) : Except GraphError Graph :=
  Graph.ofRecords r.contractId r.milestones.toList r.dependencies.toList

namespace WellFormed

variable {r : ContractRecords} (h : r.WellFormed)
include h

/-- Records in order make a graph without cycles. -/
theorem exists_graph : ∃ g, r.graph = .ok g ∧ g.Holds r.contractId r.milestones.toList
    r.dependencies.toList ∧ g.Acyclic := by
  have hids : ∀ id, r.milestones.contains id = true → id ∈ r.milestones.toList.map Milestone.id :=
    fun id hid => Table.contains_iff.1 hid
  obtain ⟨g, hg⟩ := Graph.exists_ofRecords h.namesContract
    r.milestones.nodup_ids fun e he => ⟨hids _ (h.ends e he).1, hids _ (h.ends e he).2⟩
  have hholds := Graph.holds_of_ofRecords hg
  refine ⟨g, hg, hholds, hholds.linked.acyclic_iff.2 ?_⟩
  rw [hholds.edges_eq]
  exact h.acyclic

/-- Records in order have an order of work. -/
theorem exists_workOrder : ∃ g o, r.graph = .ok g ∧ g.workOrder = .ok o := by
  obtain ⟨g, hg, hholds, hacyclic⟩ := h.exists_graph
  obtain ⟨o, ho⟩ := (Graph.exists_workOrder_iff hholds.linked).2 hacyclic
  exact ⟨g, o, hg, ho⟩

end WellFormed

end ContractRecords

end Milestones
