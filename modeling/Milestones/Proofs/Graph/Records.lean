import Milestones.Proofs.Graph.Reachability
import Milestones.Proofs.Table

/-!
# Graphs and the records they are made of

What is stored for a contract are milestones and dependency records, not a graph.  The graph made
of them holds the same milestones, lists the same records, and leads where some record leads.  So
its cycles are those of the records, and whether there is a graph at all can be read off the
records.

## Main definitions

* `RecordsLead`, `RecordsAcyclic`: links and the absence of cycles, said of records alone.
* `Graph.Holds`: the graph is made of these records.

## Main statements

* `Graph.holds_of_ofRecords`: a graph holds what it is made of.
* `Graph.exists_ofRecords`: records make a graph if they name its contract, no two milestones
  share an identifier, and no dependency leads outside.
* `Graph.Linked.acyclic_iff`: the cycles of a graph are those of its records.
-/

namespace Milestones

open Relation

/-! ## Links by records -/

/-- Some record makes the second milestone depend on the first, in any way. -/
def RecordsLead (dependencies : List Dependency) (a b : MilestoneId) : Prop :=
  ∃ e ∈ dependencies, e.dependsOnId = a ∧ e.milestoneId = b

/-- No milestone depends on itself over one or more records. -/
def RecordsAcyclic (dependencies : List Dependency) : Prop :=
  ∀ id, ¬TransGen (RecordsLead dependencies) id id

/-- Fewer records make no new cycle. -/
theorem RecordsAcyclic.mono {es es' : List Dependency} (h : RecordsAcyclic es')
    (hsub : ∀ e ∈ es, e ∈ es') : RecordsAcyclic es := by
  intro id hcycle
  refine h id (TransGen.mono ?_ _ _ hcycle)
  rintro a b ⟨e, he, hab⟩
  exact ⟨e, hsub e he, hab⟩

namespace Graph

/-- A record between two milestones makes a link. -/
theorem exists_linkKind?_of_mem {edges : List Dependency} {e : Dependency} (he : e ∈ edges) :
    ∃ kind, linkKind? edges e.milestoneId e.dependsOnId = some kind := by
  induction edges using List.reverseRecOn with
  | nil => cases he
  | append_singleton edges last ih =>
    rw [linkKind?_append_singleton]
    split
    · exact ⟨_, rfl⟩
    · rename_i hne
      rcases List.mem_append.1 he with he | he
      · exact ih he
      · cases List.mem_singleton.1 he
        exact absurd ⟨rfl, rfl⟩ hne

/-- A graph leads where some of its records leads. -/
theorem Linked.leads_iff_recordsLead {g : Graph} (hg : g.Linked) {a b : MilestoneId} :
    g.Leads a b ↔ RecordsLead g.edges a b := by
  rw [leads_iff, hg.successorKind?_eq]
  constructor
  · rintro ⟨kind, h⟩
    obtain ⟨e, he, hb, ha⟩ := exists_of_linkKind?_eq_some h
    exact ⟨e, he, ha, hb⟩
  · rintro ⟨e, he, rfl, rfl⟩
    exact exists_linkKind?_of_mem he

/-- The cycles of a graph are those of its records. -/
theorem Linked.acyclic_iff {g : Graph} (hg : g.Linked) :
    g.Acyclic ↔ RecordsAcyclic g.edges := by
  have hleads : g.Leads = RecordsLead g.edges := by
    funext a b
    exact propext hg.leads_iff_recordsLead
  simp only [Acyclic, OnCycle, Reaches, RecordsAcyclic, hleads]

/-! ## The milestones of a graph -/

theorem mem_milestones_iff {g : Graph} {m : Milestone} :
    m ∈ g.milestones ↔ g.milestone? m.id = some m := by
  rw [milestones, milestone?, List.mem_map, Option.map_eq_some_iff]
  constructor
  · rintro ⟨n, hn, rfl⟩
    exact ⟨n, Table.get?_eq_some_iff.2 ⟨hn, rfl⟩, rfl⟩
  · rintro ⟨n, hn, hm⟩
    exact ⟨n, Table.mem_of_get? hn, hm⟩

theorem mem_milestones_of_milestone? {g : Graph} {id : MilestoneId} {m : Milestone}
    (h : g.milestone? id = some m) : m ∈ g.milestones := by
  obtain ⟨n, hn, rfl⟩ := Option.map_eq_some_iff.1 h
  exact List.mem_map_of_mem (Table.mem_of_get? hn)

theorem contains_iff_exists_mem {g : Graph} {id : MilestoneId} :
    g.contains id = true ↔ ∃ m ∈ g.milestones, m.id = id := by
  constructor
  · intro h
    obtain ⟨n, hn⟩ := Table.contains_iff_get?.1 h
    exact ⟨n.milestone, List.mem_map_of_mem (Table.mem_of_get? hn), Table.recordId_of_get? hn⟩
  · rintro ⟨m, hm, rfl⟩
    obtain ⟨n, hn, -⟩ := Option.map_eq_some_iff.1 (mem_milestones_iff.1 hm)
    exact Table.contains_iff_get?.2 ⟨n, hn⟩

theorem mem_milestones_addMilestone {g g' : Graph} {m : Milestone}
    (h : g.addMilestone m = .ok g') {x : Milestone} :
    x ∈ g'.milestones ↔ x ∈ g.milestones ∨ x = m := by
  obtain ⟨-, hnew, -⟩ := addMilestone_eq_ok h
  have hnone : g.milestone? m.id = none := by
    rw [milestone?, get?_eq_none_of_not_contains hnew]
    rfl
  rw [mem_milestones_iff, mem_milestones_iff, milestone?, get?_addMilestone h]
  split
  · rename_i hid
    rw [← hid, hnone]
    simp [eq_comm]
  · rename_i hid
    rw [← milestone?]
    exact ⟨.inl, fun hx => hx.resolve_right fun e => hid (e ▸ rfl)⟩

theorem mem_milestones_addDependency {g g' : Graph} {e : Dependency}
    (h : g.addDependency e = .ok g') {x : Milestone} :
    x ∈ g'.milestones ↔ x ∈ g.milestones := by
  rw [mem_milestones_iff, mem_milestones_iff, milestone?, milestone?, get?_addDependency h,
    Option.map_map]
  rfl

/-! ## Graphs and lists of records -/

/-- The graph is made of these records. -/
structure Holds (g : Graph) (c : ContractId) (milestones : List Milestone)
    (dependencies : List Dependency) : Prop where
  contractId_eq : g.contractId = c
  mem_milestones : ∀ m, m ∈ g.milestones ↔ m ∈ milestones
  edges_eq : g.edges = dependencies
  linked : g.Linked

/-- What adding several milestones does. -/
theorem foldlM_addMilestone_eq_ok {milestones : List Milestone} {g g' : Graph}
    (h : milestones.foldlM addMilestone g = .ok g') :
    g'.contractId = g.contractId ∧ g'.edges = g.edges ∧
      ∀ m, m ∈ g'.milestones ↔ m ∈ g.milestones ∨ m ∈ milestones := by
  induction milestones generalizing g with
  | nil =>
    cases h
    simp
  | cons first rest ih =>
    rw [List.foldlM_cons, Outcome.bind_eq_ok] at h
    obtain ⟨g₁, h₁, h₂⟩ := h
    obtain ⟨hcontract, hedges, hmem⟩ := ih h₂
    obtain ⟨-, -, hg₁⟩ := addMilestone_eq_ok h₁
    refine ⟨by rw [hcontract, hg₁], by rw [hedges, hg₁], fun m => ?_⟩
    rw [hmem, mem_milestones_addMilestone h₁, List.mem_cons, or_assoc]

/-- What adding several dependencies does. -/
theorem foldlM_addDependency_eq_ok {dependencies : List Dependency} {g g' : Graph}
    (h : dependencies.foldlM addDependency g = .ok g') :
    g'.contractId = g.contractId ∧ g'.edges = g.edges ++ dependencies ∧
      ∀ m, m ∈ g'.milestones ↔ m ∈ g.milestones := by
  induction dependencies generalizing g with
  | nil =>
    cases h
    simp
  | cons first rest ih =>
    rw [List.foldlM_cons, Outcome.bind_eq_ok] at h
    obtain ⟨g₁, h₁, h₂⟩ := h
    obtain ⟨hcontract, hedges, hmem⟩ := ih h₂
    obtain ⟨-, -, hg₁⟩ := addDependency_eq_ok h₁
    refine ⟨by rw [hcontract, hg₁], ?_, fun m => ?_⟩
    · rw [hedges, hg₁, List.append_assoc, List.singleton_append]
    · rw [hmem, mem_milestones_addDependency h₁]

/-- A graph holds what it is made of. -/
theorem holds_of_ofRecords {c : ContractId} {milestones : List Milestone}
    {dependencies : List Dependency} {g : Graph}
    (h : ofRecords c milestones dependencies = .ok g) : g.Holds c milestones dependencies := by
  have hlinked := (built_of_ofRecords h).linked
  obtain ⟨g₁, h₁, h₂⟩ := Outcome.bind_eq_ok.1 h
  obtain ⟨hcontract₁, hedges₁, hmem₁⟩ := foldlM_addMilestone_eq_ok h₁
  obtain ⟨hcontract₂, hedges₂, hmem₂⟩ := foldlM_addDependency_eq_ok h₂
  refine ⟨hcontract₂.trans hcontract₁, fun m => ?_, ?_, hlinked⟩
  · rw [hmem₂, hmem₁]
    exact or_iff_right List.not_mem_nil
  · rw [hedges₂, hedges₁]
    rfl

/-- Milestones of the contract with new identifiers can be added. -/
theorem exists_foldlM_addMilestone {milestones : List Milestone} {g : Graph}
    (hcontract : ∀ m ∈ milestones, m.contractId = g.contractId)
    (hnodup : (milestones.map Milestone.id).Nodup)
    (hnew : ∀ m ∈ milestones, g.contains m.id = false) :
    ∃ g', milestones.foldlM addMilestone g = .ok g' := by
  induction milestones generalizing g with
  | nil => exact ⟨g, rfl⟩
  | cons first rest ih =>
    obtain ⟨hfirst, hrest⟩ := List.nodup_cons.1 hnodup
    have hadd : g.addMilestone first =
        .ok { g with nodes := g.nodes.insert { milestone := first } } := by
      rw [addMilestone, if_neg (not_not_intro (hcontract first List.mem_cons_self)), if_neg]
      exact Bool.eq_false_iff.1 (hnew first List.mem_cons_self)
    obtain ⟨g', hg'⟩ := ih (g := { g with nodes := g.nodes.insert { milestone := first } })
      (fun m hm => hcontract m (List.mem_cons_of_mem _ hm)) hrest fun m hm => by
        rw [Bool.eq_false_iff, ne_eq, contains_addMilestone hadd]
        rintro (hid | hid)
        · exact hfirst (hid ▸ List.mem_map_of_mem hm)
        · exact Bool.eq_false_iff.1 (hnew m (List.mem_cons_of_mem _ hm)) hid
    refine ⟨g', ?_⟩
    rw [List.foldlM_cons, hadd]
    exact hg'

/-- A dependency between milestones of the graph can be added. -/
theorem exists_addDependency {g : Graph} {e : Dependency}
    (hdependent : g.contains e.milestoneId = true)
    (hprerequisite : g.contains e.dependsOnId = true) : ∃ g', g.addDependency e = .ok g' := by
  rw [contains] at hdependent hprerequisite
  simp [addDependency, hdependent, hprerequisite]

/-- Dependencies between milestones of the graph can be added. -/
theorem exists_foldlM_addDependency {dependencies : List Dependency} {g : Graph}
    (hends : ∀ e ∈ dependencies,
      g.contains e.milestoneId = true ∧ g.contains e.dependsOnId = true) :
    ∃ g', dependencies.foldlM addDependency g = .ok g' := by
  induction dependencies generalizing g with
  | nil => exact ⟨g, rfl⟩
  | cons first rest ih =>
    obtain ⟨hdependent, hprerequisite⟩ := hends first List.mem_cons_self
    obtain ⟨g₁, hadd⟩ := exists_addDependency hdependent hprerequisite
    obtain ⟨g', hg'⟩ := ih (g := g₁) fun e he => by
      rw [contains_addDependency hadd, contains_addDependency hadd]
      exact hends e (List.mem_cons_of_mem _ he)
    refine ⟨g', ?_⟩
    rw [List.foldlM_cons, hadd]
    exact hg'

/-- Records make a graph if they name its contract, no two milestones share an identifier, and
no dependency leads outside. -/
theorem exists_ofRecords {c : ContractId} {milestones : List Milestone}
    {dependencies : List Dependency} (hcontract : ∀ m ∈ milestones, m.contractId = c)
    (hnodup : (milestones.map Milestone.id).Nodup)
    (hends : ∀ e ∈ dependencies,
      e.milestoneId ∈ milestones.map Milestone.id ∧ e.dependsOnId ∈ milestones.map Milestone.id) :
    ∃ g, ofRecords c milestones dependencies = .ok g := by
  obtain ⟨g₁, h₁⟩ := exists_foldlM_addMilestone (g := { contractId := c }) hcontract hnodup
    fun _ _ => rfl
  obtain ⟨-, -, hmem⟩ := foldlM_addMilestone_eq_ok h₁
  have hin : ∀ id, id ∈ milestones.map Milestone.id → g₁.contains id = true := by
    intro id hid
    obtain ⟨m, hm, rfl⟩ := List.mem_map.1 hid
    exact contains_iff_exists_mem.2 ⟨m, (hmem m).2 (.inr hm), rfl⟩
  obtain ⟨g, h₂⟩ := exists_foldlM_addDependency (g := g₁) fun e he =>
    ⟨hin _ (hends e he).1, hin _ (hends e he).2⟩
  exact ⟨g, Outcome.bind_eq_ok.2 ⟨g₁, h₁, h₂⟩⟩

end Graph

end Milestones
