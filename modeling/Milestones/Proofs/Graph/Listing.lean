import Milestones.Proofs.Graph.Collapse

/-!
# Records in another order

Records are listed in some order when a graph is made of them, and what they say decides everything
except the order in which the graph lists them again.  Whether they make a graph can be read off the
lists without their order, and so can each node: its milestone is the only one with that identifier,
and a link has the stronger of the kinds of the records that make it, whichever of them comes first
and however often they say the same.

## Main statements

* `Graph.exists_ofRecords_iff`: when records make a graph.
* `Graph.Linked.nodes_eq`: graphs of the same records have the same nodes.
* `Graph.ofRecords_of_terms`: the graph of records that say the same.
* `Graph.ofRecords_collapses`: what makes a graph, and which one.
-/

namespace Milestones

/-- Link tables are equal if they have the same kinds for the same neighbours. -/
theorem links_eq_of_kind {links links' : Table Link}
    (h : ∀ id, (links'.get? id).map Link.kind = (links.get? id).map Link.kind) :
    links' = links := by
  refine Table.ext (Table.eq_of_forall_mem_iff links'.ascending links.ascending fun l => ?_)
  change l ∈ links'.toList ↔ l ∈ links.toList
  rw [mem_toList_iff_kind, mem_toList_iff_kind, h]

namespace Graph

variable {c : ContractId} {ms ms' : List Milestone} {es es' : List Dependency}

/-! ## When records make a graph -/

/-- Milestones can be added if they name the contract and have new identifiers. -/
theorem of_foldlM_addMilestone {g g' : Graph} (h : ms.foldlM addMilestone g = .ok g') :
    (∀ m ∈ ms, m.contractId = g.contractId ∧ g.contains m.id = false) ∧
      (ms.map Milestone.id).Nodup := by
  induction ms generalizing g with
  | nil => exact ⟨fun _ hm => absurd hm List.not_mem_nil, List.nodup_nil⟩
  | cons first rest ih =>
    rw [List.foldlM_cons, Outcome.bind_eq_ok] at h
    obtain ⟨g₁, h₁, h₂⟩ := h
    obtain ⟨hcontract, hnew, rfl⟩ := addMilestone_eq_ok h₁
    obtain ⟨hrest, hnodup⟩ := ih h₂
    have hin := contains_addMilestone h₁
    refine ⟨fun m hm => ?_, List.nodup_cons.2 ⟨fun hmem => ?_, hnodup⟩⟩
    · rcases List.mem_cons.1 hm with rfl | hm
      · exact ⟨hcontract, hnew⟩
      · obtain ⟨hsame, hnone⟩ := hrest m hm
        exact ⟨hsame, Bool.eq_false_iff.2 fun hold =>
          Bool.eq_false_iff.1 hnone ((hin m.id).2 (.inr hold))⟩
    · obtain ⟨m, hm, hid⟩ := List.mem_map.1 hmem
      exact Bool.eq_false_iff.1 (hrest m hm).2 ((hin m.id).2 (.inl hid.symm))

/-- Records make a graph exactly if they name its contract, no two milestones share an identifier,
and no dependency leads outside. -/
theorem exists_ofRecords_iff :
    (∃ g, ofRecords c ms es = .ok g) ↔ (∀ m ∈ ms, m.contractId = c) ∧
      (ms.map Milestone.id).Nodup ∧
      ∀ e ∈ es, e.milestoneId ∈ ms.map Milestone.id ∧ e.dependsOnId ∈ ms.map Milestone.id := by
  constructor
  · rintro ⟨g, hg⟩
    have hholds := holds_of_ofRecords hg
    obtain ⟨g₁, h₁, -⟩ := Outcome.bind_eq_ok.1 hg
    obtain ⟨hnames, hnodup⟩ := of_foldlM_addMilestone h₁
    have hin : ∀ id, g.contains id = true → id ∈ ms.map Milestone.id := by
      intro id hid
      obtain ⟨m, hm, rfl⟩ := contains_iff_exists_mem.1 hid
      exact List.mem_map_of_mem ((hholds.mem_milestones m).1 hm)
    refine ⟨fun m hm => (hnames m hm).1, hnodup, fun e he => ?_⟩
    obtain ⟨hdependent, hprerequisite⟩ := hholds.linked.contains_ends e (hholds.edges_eq ▸ he)
    exact ⟨hin _ hdependent, hin _ hprerequisite⟩
  · rintro ⟨hnames, hnodup, hends⟩
    exact exists_ofRecords hnames hnodup hends

/-! ## Which graph they make -/

theorem id_of_milestone? {g : Graph} {id : MilestoneId} {m : Milestone}
    (h : g.milestone? id = some m) : m.id = id := by
  obtain ⟨n, hn, rfl⟩ := Option.map_eq_some_iff.1 h
  exact Table.recordId_of_get? hn

/-- Graphs with the same milestones and links have the same nodes. -/
theorem Linked.nodes_eq {g g' : Graph} (hg : g.Linked) (hg' : g'.Linked)
    (hmem : ∀ m, m ∈ g'.milestones ↔ m ∈ g.milestones)
    (hlinks : ∀ a b, linkKind? g'.edges a b = linkKind? g.edges a b) : g'.nodes = g.nodes := by
  refine Table.ext_get? fun id => ?_
  have hpredecessors : ∀ b, g'.predecessorKind? id b = g.predecessorKind? id b := fun b => by
    rw [hg'.predecessorKind?_eq, hg.predecessorKind?_eq, hlinks]
  have hsuccessors : ∀ b, g'.successorKind? id b = g.successorKind? id b := fun b => by
    rw [hg'.successorKind?_eq, hg.successorKind?_eq, hlinks]
  have hmilestone : g'.milestone? id = g.milestone? id := by
    ext m
    have hiff := hmem m
    rw [mem_milestones_iff, mem_milestones_iff] at hiff
    constructor
    · intro h
      obtain rfl := id_of_milestone? h
      exact hiff.1 h
    · intro h
      obtain rfl := id_of_milestone? h
      exact hiff.2 h
  simp only [predecessorKind?, successorKind?, milestone?] at hpredecessors hsuccessors hmilestone
  cases hn : g.nodes.get? id with
  | none =>
    rw [hn] at hmilestone
    exact Option.map_eq_none_iff.1 hmilestone
  | some n =>
    rw [hn] at hpredecessors hsuccessors hmilestone
    obtain ⟨n', hn', hsame⟩ := Option.map_eq_some_iff.1 hmilestone
    rw [hn'] at hpredecessors hsuccessors ⊢
    cases n
    cases n'
    cases hsame
    cases links_eq_of_kind hpredecessors
    cases links_eq_of_kind hsuccessors
    rfl

/-- Records that say the same make the same graph, apart from how it lists the dependencies. -/
theorem ofRecords_of_terms {g : Graph} (hms : ms.Perm ms')
    (hes : ∀ x, x ∈ es'.map Dependency.terms ↔ x ∈ es.map Dependency.terms)
    (h : ofRecords c ms es = .ok g) : ofRecords c ms' es' = .ok { g with edges := es' } := by
  have hids := hms.map Milestone.id
  obtain ⟨hnames, hnodup, hends⟩ := exists_ofRecords_iff.1 ⟨g, h⟩
  obtain ⟨g', hg'⟩ := exists_ofRecords (fun m hm => hnames m (hms.mem_iff.2 hm))
    (hids.nodup_iff.1 hnodup) fun e he => by
      obtain ⟨e', he', hterms⟩ := List.mem_map.1 ((hes _).1 (List.mem_map_of_mem he))
      simp only [Dependency.terms, Prod.mk.injEq] at hterms
      rw [← hids.mem_iff, ← hids.mem_iff, ← hterms.1, ← hterms.2.1]
      exact hends e' he'
  have hholds := holds_of_ofRecords h
  have hholds' := holds_of_ofRecords hg'
  have hnodes : g'.nodes = g.nodes := by
    refine hholds.linked.nodes_eq hholds'.linked (fun m => ?_) fun a b => ?_
    · rw [hholds'.mem_milestones, hholds.mem_milestones, hms.mem_iff]
    · rw [hholds'.edges_eq, hholds.edges_eq, linkKind?_eq_of_terms hes]
  have hcontract : g'.contractId = g.contractId :=
    hholds'.contractId_eq.trans hholds.contractId_eq.symm
  rw [hg', ← hcontract, ← hnodes, ← hholds'.edges_eq]

/-- The same records in another order make the same graph, apart from the order in which it lists
the dependencies. -/
theorem ofRecords_perm {g : Graph} (hms : ms.Perm ms') (hes : es.Perm es')
    (h : ofRecords c ms es = .ok g) : ofRecords c ms' es' = .ok { g with edges := es' } :=
  ofRecords_of_terms hms (fun _ => (hes.map Dependency.terms).mem_iff.symm) h

/-! ## What makes a graph, and which one -/

/-- Records make a graph exactly if they name its contract, no two milestones share an identifier,
and no dependency leads outside.  The graph collapses them into links, and neither its nodes nor its
links depend on how the milestones are ordered and how the dependencies are ordered and repeated. -/
theorem ofRecords_collapses (c : ContractId) (ms : List Milestone) (es : List Dependency) :
    ((∃ g, ofRecords c ms es = .ok g) ↔ (∀ m ∈ ms, m.contractId = c) ∧
      (ms.map Milestone.id).Nodup ∧
      ∀ e ∈ es, e.milestoneId ∈ ms.map Milestone.id ∧ e.dependsOnId ∈ ms.map Milestone.id) ∧
    ∀ g, ofRecords c ms es = .ok g →
      g.Collapses ms es ∧
        ∀ ms' es', ms.Perm ms' →
          (∀ x, x ∈ es'.map Dependency.terms ↔ x ∈ es.map Dependency.terms) →
          ∃ g', ofRecords c ms' es' = .ok g' ∧ g'.nodes = g.nodes ∧ g'.links = g.links := by
  refine ⟨exists_ofRecords_iff, fun g hg => ⟨(holds_of_ofRecords hg).collapses, ?_⟩⟩
  intro ms' es' hms hes
  exact ⟨_, ofRecords_of_terms hms hes hg, rfl, rfl⟩

/-! ## A tangle -/

/-- Three milestones. -/
def tangleMilestones : List Milestone :=
  let plain (id : MilestoneId) : Milestone := { id := id, contractId := 1, title := "" }
  [plain 3, plain 1, plain 2]

/-- The second milestone waits for the first and goes along with it, either way round.  The third
one waits for both, and one of the records is there twice. -/
def tangleDependencies : List Dependency :=
  [⟨1, 2, 1, .parallel⟩, ⟨2, 3, 2, .prerequisite⟩, ⟨3, 2, 1, .prerequisite⟩, ⟨4, 1, 2, .parallel⟩,
    ⟨5, 3, 1, .parallel⟩, ⟨5, 3, 1, .parallel⟩]

/-- Six records make four links, and five of them make the same ones from the last to the first. -/
theorem collapses_tangle : ∃ g g', ofRecords 1 tangleMilestones tangleDependencies = .ok g ∧
    g.links = [(1, 2, .prerequisite), (1, 3, .parallel), (2, 1, .parallel), (2, 3, .prerequisite)] ∧
    g.Collapses tangleMilestones tangleDependencies ∧
    ofRecords 1 tangleMilestones.reverse (tangleDependencies.take 5).reverse = .ok g' ∧
    g'.links = g.links := by
  obtain ⟨g, hg, hlinks⟩ : ∃ g, ofRecords 1 tangleMilestones tangleDependencies = .ok g ∧ g.links =
      [(1, 2, .prerequisite), (1, 3, .parallel), (2, 1, .parallel), (2, 3, .prerequisite)] :=
    ⟨_, rfl, by decide⟩
  obtain ⟨hcollapses, hsame⟩ := (ofRecords_collapses 1 _ _).2 g hg
  have hterms : ∀ x, x ∈ (tangleDependencies.take 5).reverse.map Dependency.terms ↔
      x ∈ tangleDependencies.map Dependency.terms := by
    intro x
    simp [tangleDependencies]
    tauto
  obtain ⟨g', hg', -, hlinks'⟩ := hsame _ _ (List.reverse_perm _).symm hterms
  exact ⟨g, g', hg, hlinks, hcollapses, hg', hlinks'⟩

end Graph

end Milestones
