import Milestones.Proofs.Graph.Listing
import Milestones.Proofs.Planner.Oblivious

/-!
# Imported contracts

A contract comes into a store as a whole, as lists of records, and nothing is checked.  The lists
become tables, and a table has room for one record under each identifier: of several the last one
stays.  The planner then reads the tables back, in the order of the identifiers, and makes its graph
of that.

Making the graph of the lists themselves comes to the same, unless an identifier is listed twice.
Then the lists either make no graph, or a graph with dependencies that the planner never sees.

## Main definitions

* `latest`: the listed records that no later one with the same identifier replaces.

## Main statements

* `perm_latest`: these are what a table keeps of a list.
* `Planner.Truthful.answers_ofSnapshot`: what a planner says of an imported contract.
* `not_answers_repeated`: an import in which identifiers are repeated.
-/

namespace Milestones

open Outcome

/-! ## What a table keeps of a list -/

section

variable {α : Type} {kind : RecordKind} [Identified α kind]

/-- The listed records that no later one with the same identifier replaces. -/
def latest (as : List α) : List α := as.pwFilter fun a b => recordId a ≠ recordId b

theorem nodup_ids_latest (as : List α) : ((latest as).map recordId).Nodup :=
  List.pairwise_map.2 (List.pairwise_pwFilter as)

/-- Where no identifier is listed twice, nothing is replaced. -/
theorem latest_eq_self {as : List α} (h : (as.map recordId).Nodup) : latest as = as :=
  List.pwFilter_eq_self.2 (List.pairwise_map.1 h)

/-- What is found in the table of a list stands among the latest records. -/
theorem find?_latest (as : List α) (id : RecordId kind) :
    ((latest as).find? fun a => recordId a == id) = (Table.ofList as).get? id := by
  rw [Table.get?_ofList]
  induction as with
  | nil => rfl
  | cons a rest ih =>
    rw [List.reverse_cons, List.find?_append, ← ih]
    by_cases hnew : ∀ b ∈ latest rest, recordId a ≠ recordId b
    · rw [latest, List.pwFilter_cons_of_pos hnew, ← latest]
      by_cases hid : recordId a = id
      · have hnone : ((latest rest).find? fun a => recordId a == id) = none :=
          List.find?_eq_none.2 fun b hb => by simpa [← hid] using (hnew b hb).symm
        simp [hid, hnone]
      · simp [hid]
    · rw [latest, List.pwFilter_cons_of_neg hnew, ← latest]
      -- Another record with this identifier comes later.
      simp only [not_forall, not_not] at hnew
      obtain ⟨b, hb, hab⟩ := hnew
      by_cases hid : recordId a = id
      · have hsome : ((latest rest).find? fun a => recordId a == id).isSome = true :=
          List.find?_isSome.2 ⟨b, hb, by simp [← hab, hid]⟩
        rw [Option.or_of_isSome hsome]
      · simp [hid]

/-- A table keeps the latest records of a list, in the order of their identifiers. -/
theorem perm_latest (as : List α) : (latest as).Perm (Table.ofList as).toList := by
  refine (List.perm_ext_iff_of_nodup (nodup_ids_latest as).of_map
    (Table.ofList as).nodup_ids.of_map).2 fun a => ?_
  change _ ↔ a ∈ (Table.ofList as).toList
  rw [Table.mem_toList_iff_get?, ← find?_latest, find?_key_eq_some_iff (nodup_ids_latest as)]
  exact (and_iff_left rfl).symm

end

/-! ## The graph of an imported contract -/

namespace ContractRecords

variable {s : Snapshot}

/-- A graph of the latest records is the graph of the imported contract, apart from the order in
which it lists the dependencies. -/
theorem graph_ofSnapshot_of_ok {g : Graph}
    (h : Graph.ofRecords s.contractId (latest s.milestones) (latest s.dependencies) = .ok g) :
    (ofSnapshot s).graph = .ok { g with edges := (Table.ofList s.dependencies).toList } :=
  Graph.ofRecords_perm (perm_latest _) (perm_latest _) h

theorem graph_ofSnapshot_of_error {e : GraphError}
    (h : Graph.ofRecords s.contractId (latest s.milestones) (latest s.dependencies) = .error e) :
    ∃ e', (ofSnapshot s).graph = .error e' := by
  cases hgraph : (ofSnapshot s).graph with
  | error e' => exact ⟨e', rfl⟩
  | ok g =>
    have hlists := Graph.ofRecords_perm (perm_latest _).symm (perm_latest _).symm hgraph
    cases h.symm.trans hlists

end ContractRecords

namespace Planner

/-- A planner on an imported contract says whether there are cycles and in which order to work as
the graph of the latest records does, with the same report of cycles, and it fails where these
records make no graph.  If no identifier is listed twice, the latest records are the listed ones. -/
theorem Truthful.answers_ofSnapshot {p : Planner} (hp : p.Truthful) {s : Snapshot}
    {hashing : Hashing} (hstore : p.store = .ofSnapshot s hashing) :
    (∀ g, Graph.ofRecords s.contractId (latest s.milestones) (latest s.dependencies) = .ok g →
      ((isAcyclic s.contractId).on p).1 = .ok g.isAcyclic ∧
        ((order s.contractId).on p).1 =
          (Outcome.ofExcept (fun r => .schedule (.cycle r)) g.workOrder).map WorkOrder.ids) ∧
    (∀ e, Graph.ofRecords s.contractId (latest s.milestones) (latest s.dependencies) = .error e →
      ∃ e', ((isAcyclic s.contractId).on p).1 = .error (.refused (.schedule (.graph e'))) ∧
        ((order s.contractId).on p).1 = .error (.refused (.schedule (.graph e')))) ∧
    ((s.milestones.map Milestone.id).Nodup → latest s.milestones = s.milestones) ∧
    ((s.dependencies.map Dependency.id).Nodup → latest s.dependencies = s.dependencies) := by
  have hon : p.store.offline = false := by
    rw [hstore]
    rfl
  have hgraph : p.store.graph s.contractId =
      Outcome.ofExcept (fun e => .schedule (.graph e)) (ContractRecords.ofSnapshot s).graph := by
    rw [hstore, Store.graph, Store.records_ofSnapshot, if_pos rfl]
    rfl
  rw [hp.on_isAcyclic hon, hp.on_order hon, hgraph]
  refine ⟨fun g hg => ?_, fun e he => ?_, latest_eq_self, latest_eq_self⟩
  · rw [ContractRecords.graph_ofSnapshot_of_ok hg]
    exact ⟨rfl, rfl⟩
  · obtain ⟨e', he'⟩ := ContractRecords.graph_ofSnapshot_of_error he
    rw [he']
    exact ⟨e', rfl, rfl⟩

end Planner

/-! ## An import with repeated identifiers -/

/-- Two milestones in a circle, in which both dependencies have one identifier. -/
def circle : Snapshot :=
  { contractId := 1
    milestones :=
      [{ id := 1, contractId := 1, title := "a" }, { id := 2, contractId := 1, title := "b" }]
    dependencies := [⟨1, 1, 2, .prerequisite⟩, ⟨1, 2, 1, .prerequisite⟩] }

/-- Only the second dependency is left, and the milestones are ordered by it. -/
theorem answers_ofSnapshot_circle : ∃ p, p = Planner.withDefaults (.ofSnapshot circle) ∧
    p.Truthful ∧ ((Planner.isAcyclic 1).on p).1 = .ok true ∧
      ((Planner.order 1).on p).1 = .ok [1, 2] := by
  have htruthful : (Planner.withDefaults (.ofSnapshot circle)).Truthful :=
    Planner.Truthful.of_entries rfl
  obtain ⟨g, hg, hacyclic, horder⟩ : ∃ g, Graph.ofRecords circle.contractId
      (latest circle.milestones) (latest circle.dependencies) = .ok g ∧ g.isAcyclic = true ∧
        g.workOrder = .ok ⟨1, [1, 2]⟩ := ⟨_, by cbv, by cbv, by cbv⟩
  obtain ⟨hanswer, hids⟩ := (htruthful.answers_ofSnapshot (s := circle) rfl).1 g hg
  rw [hacyclic] at hanswer
  rw [horder] at hids
  exact ⟨_, rfl, htruthful, hanswer, hids⟩

/-- The dependencies as they are listed make a graph with a cycle, and a milestone that is listed
twice makes none at all.  The planner finds nothing wrong with either import. -/
theorem not_answers_repeated :
    (∃ g, Graph.ofRecords 1 circle.milestones circle.dependencies = .ok g ∧ g.isAcyclic = false ∧
      ((Planner.isAcyclic 1).on (.withDefaults (.ofSnapshot circle))).1 = .ok true) ∧
    ∃ m : Milestone, Graph.ofRecords 1 [m, m] [] = .error (.duplicateMilestone m.id) ∧
      ((Planner.isAcyclic 1).on
        (.withDefaults (.ofSnapshot { contractId := 1, milestones := [m, m] }))).1 = .ok true := by
  have hanswer : ∀ s : Store, ((Planner.isAcyclic 1).on (.withDefaults s)).1 =
      (s.graph 1).map Graph.isAcyclic := by
    intro s
    rw [Planner.on_isAcyclic]
    rfl
  rw [hanswer]
  refine ⟨⟨_, by cbv, by cbv, by cbv⟩, { id := 1, contractId := 1, title := "twice" }, by cbv, ?_⟩
  rw [hanswer]
  cbv

end Milestones
