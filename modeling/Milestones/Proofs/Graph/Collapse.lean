import Milestones.Proofs.Graph.Records

/-!
# Records collapse into links

Any number of records may join the same two milestones in the same direction.  The graph keeps one
link for them, and what it keeps can be read off the records without their order: there is a link if
some record makes it, and it is a prerequisite if one of those records is.  Records the other way
round make a link of their own, and a milestone may be linked to itself.

The link stands with both of its ends, and once in the list of all links.

## Main definitions

* `Dependency.terms`: what a record says, apart from its own identifier.
* `Graph.Collapses`: the links of a graph, as said by records.

## Main statements

* `linkKind?_eq_prerequisite_iff`: the kind of a link.
* `linkKind?_eq_of_terms`: records that say the same make the same links.
* `Graph.Holds.collapses`: the links of a graph made of records.
-/

namespace Milestones

/-- Who depends on whom, and in which way. -/
def Dependency.terms (e : Dependency) : MilestoneId × MilestoneId × DependencyKind :=
  (e.milestoneId, e.dependsOnId, e.kind)

/-- A link becomes a prerequisite with a record of that kind, and stays one with any other. -/
theorem DependencyKind.onto_eq_prerequisite_iff {kind : DependencyKind}
    {old : Option DependencyKind} :
    kind.onto old = .prerequisite ↔ kind = .prerequisite ∨ old = some .prerequisite := by
  cases kind <;> rcases old with _ | old <;> (try cases old) <;> decide

/-- Of the two kinds, one is told from the other by being a prerequisite. -/
theorem DependencyKind.eq_of_iff {x y : Option DependencyKind}
    (hlink : (∃ kind, x = some kind) ↔ ∃ kind, y = some kind)
    (hkind : x = some .prerequisite ↔ y = some .prerequisite) : x = y := by
  rcases x with _ | _ | _ <;> rcases y with _ | _ | _ <;> simp_all

namespace Graph

/-! ## What records say -/

/-- Records make a link if one of them joins its ends. -/
theorem exists_linkKind?_iff {edges : List Dependency} {a b : MilestoneId} :
    (∃ kind, linkKind? edges a b = some kind) ↔
      ∃ e ∈ edges, e.milestoneId = a ∧ e.dependsOnId = b := by
  constructor
  · rintro ⟨kind, h⟩
    exact exists_of_linkKind?_eq_some h
  · rintro ⟨e, he, rfl, rfl⟩
    exact exists_linkKind?_of_mem he

/-- Records make a prerequisite if one of them is one. -/
theorem linkKind?_eq_prerequisite_iff {edges : List Dependency} {a b : MilestoneId} :
    linkKind? edges a b = some .prerequisite ↔
      (a, b, .prerequisite) ∈ edges.map Dependency.terms := by
  induction edges using List.reverseRecOn with
  | nil => simp [linkKind?]
  | append_singleton edges e ih =>
    rw [linkKind?_append_singleton, List.map_append, List.mem_append, List.map_singleton,
      List.mem_singleton, ← ih, Dependency.terms, Prod.mk.injEq, Prod.mk.injEq]
    by_cases hends : e.milestoneId = a ∧ e.dependsOnId = b
    · rw [if_pos hends, Option.some_inj, DependencyKind.onto_eq_prerequisite_iff, or_comm]
      simp [hends, eq_comm]
    · rw [if_neg hends]
      refine (or_iff_left ?_).symm
      rintro ⟨rfl, rfl, -⟩
      exact hends ⟨rfl, rfl⟩

/-- Records that say the same make the same links, in any order and however often they say it. -/
theorem linkKind?_eq_of_terms {edges edges' : List Dependency}
    (h : ∀ x, x ∈ edges'.map Dependency.terms ↔ x ∈ edges.map Dependency.terms)
    (a b : MilestoneId) : linkKind? edges' a b = linkKind? edges a b := by
  have hsome : ∀ {es es' : List Dependency},
      (∀ x, x ∈ es'.map Dependency.terms ↔ x ∈ es.map Dependency.terms) →
      (∃ e ∈ es', e.milestoneId = a ∧ e.dependsOnId = b) →
        ∃ e ∈ es, e.milestoneId = a ∧ e.dependsOnId = b := by
    rintro es es' hsame ⟨e, he, rfl, rfl⟩
    obtain ⟨e', he', hterms⟩ := List.mem_map.1 ((hsame _).1 (List.mem_map_of_mem he))
    simp only [Dependency.terms, Prod.mk.injEq] at hterms
    exact ⟨e', he', hterms.1, hterms.2.1⟩
  have hlink : (∃ kind, linkKind? edges' a b = some kind) ↔
      ∃ kind, linkKind? edges a b = some kind := by
    rw [exists_linkKind?_iff, exists_linkKind?_iff]
    exact ⟨hsome h, hsome fun x => (h x).symm⟩
  have hkind : linkKind? edges' a b = some .prerequisite ↔
      linkKind? edges a b = some .prerequisite := by
    rw [linkKind?_eq_prerequisite_iff, linkKind?_eq_prerequisite_iff, h]
  exact DependencyKind.eq_of_iff hlink hkind

/-! ## Neighbours in ascending order -/

/-- The neighbours of a milestone are the rows of a table, in either direction. -/
theorem ascending_neighbours (g : Graph) (links : Node → Table Link) (id : MilestoneId) :
    (((g.nodes.get? id).map fun n => (links n).toList).getD []).Pairwise
      fun l l' => l.id < l'.id := by
  cases g.nodes.get? id with
  | none => exact .nil
  | some n => exact (links n).ascending

theorem predecessors_ascending (g : Graph) (id : MilestoneId) :
    (g.predecessors id).Pairwise fun l l' => l.id < l'.id :=
  g.ascending_neighbours Node.predecessors id

theorem successors_ascending (g : Graph) (id : MilestoneId) :
    (g.successors id).Pairwise fun l l' => l.id < l'.id :=
  g.ascending_neighbours Node.successors id

/-- A neighbour of a milestone stands with the node of that milestone. -/
theorem mem_neighbours_iff {g : Graph} (links : Node → Table Link) {id : MilestoneId} {l : Link} :
    l ∈ ((g.nodes.get? id).map fun n => (links n).toList).getD [] ↔
      ∃ n ∈ g.nodes.toList, n.milestone.id = id ∧ l ∈ (links n).toList := by
  constructor
  · intro h
    cases hn : g.nodes.get? id with
    | none =>
      rw [hn] at h
      cases h
    | some n =>
      rw [hn] at h
      obtain ⟨hmem, hid⟩ := Table.get?_eq_some_iff.1 hn
      exact ⟨n, hmem, hid, h⟩
  · rintro ⟨n, hmem, hid, hl⟩
    rw [Table.get?_eq_some_iff.2 ⟨hmem, hid⟩]
    exact hl

/-! ## All links -/

/-- A link is listed if it is among the successors of its start. -/
theorem mem_links_iff {g : Graph} {a b : MilestoneId} {kind : DependencyKind} :
    (a, b, kind) ∈ g.links ↔ ⟨b, kind⟩ ∈ g.successors a := by
  rw [links, List.mem_flatMap, successors, mem_neighbours_iff Node.successors]
  refine exists_congr fun n => and_congr_right fun _ => ?_
  rw [List.mem_map]
  constructor
  · rintro ⟨l, hl, heq⟩
    cases heq
    exact ⟨rfl, hl⟩
  · rintro ⟨rfl, hl⟩
    exact ⟨_, hl, rfl⟩

/-- All links ascend by their start, and by their end where they start together. -/
theorem links_ascending (g : Graph) :
    g.links.Pairwise fun l l' => l.1 < l'.1 ∨ l.1 = l'.1 ∧ l.2.1 < l'.2.1 :=
  g.nodes.pairwise_flatMap (fun _ _ _ h => .inr ⟨rfl, h⟩) fun _ _ _ _ h => .inl h

/-! ## Graphs made of records -/

/-- The graph has the listed milestones and one link for all records that join the same two of them
in the same direction. -/
structure Collapses (g : Graph) (milestones : List Milestone) (dependencies : List Dependency) :
    Prop where
  mem_milestones : ∀ m, m ∈ g.milestones ↔ m ∈ milestones
  edges_eq : g.edges = dependencies
  mem_predecessors_iff : ∀ a b, b ∈ (g.predecessors a).map Link.id ↔
    ∃ e ∈ dependencies, e.milestoneId = a ∧ e.dependsOnId = b
  mem_successors_iff : ∀ a b kind, ⟨a, kind⟩ ∈ g.successors b ↔ ⟨b, kind⟩ ∈ g.predecessors a
  kind_eq_iff : ∀ a, ∀ l ∈ g.predecessors a, l.kind = .prerequisite ↔
    ∃ e ∈ dependencies, e.milestoneId = a ∧ e.dependsOnId = l.id ∧ e.kind = .prerequisite
  predecessors_ascending : ∀ a, (g.predecessors a).Pairwise fun l l' => l.id < l'.id
  successors_ascending : ∀ a, (g.successors a).Pairwise fun l l' => l.id < l'.id
  mem_links_iff : ∀ a b kind, (b, a, kind) ∈ g.links ↔ ⟨b, kind⟩ ∈ g.predecessors a
  links_ascending : g.links.Pairwise fun l l' => l.1 < l'.1 ∨ l.1 = l'.1 ∧ l.2.1 < l'.2.1

/-- Both ends of a link know it with the same kind. -/
theorem Linked.mem_successors_iff_mem_predecessors {g : Graph} (hg : g.Linked) {a b : MilestoneId}
    {kind : DependencyKind} : ⟨a, kind⟩ ∈ g.successors b ↔ ⟨b, kind⟩ ∈ g.predecessors a := by
  rw [Graph.mem_successors_iff, Graph.mem_predecessors_iff]
  exact Eq.congr_left (hg.successorKind?_eq_predecessorKind? b a)

/-- What a graph is made of collapses into its links. -/
theorem Holds.collapses {g : Graph} {c : ContractId} {milestones : List Milestone}
    {dependencies : List Dependency} (h : g.Holds c milestones dependencies) :
    g.Collapses milestones dependencies := by
  have hmirror : ∀ a b kind, ⟨a, kind⟩ ∈ g.successors b ↔ ⟨b, kind⟩ ∈ g.predecessors a :=
    fun _ _ _ => h.linked.mem_successors_iff_mem_predecessors
  refine
    { mem_milestones := h.mem_milestones
      edges_eq := h.edges_eq
      mem_predecessors_iff := fun a b => ?_
      mem_successors_iff := hmirror
      kind_eq_iff := fun a l hl => ?_
      predecessors_ascending := g.predecessors_ascending
      successors_ascending := g.successors_ascending
      mem_links_iff := fun a b kind => Graph.mem_links_iff.trans (hmirror a b kind)
      links_ascending := g.links_ascending }
  · rw [← h.linked.leads_iff_mem_predecessors, h.linked.leads_iff_recordsLead, h.edges_eq]
    exact exists_congr fun e => and_congr_right fun _ => and_comm
  · rw [Graph.mem_predecessors_iff, h.linked.predecessorKind?_eq, h.edges_eq] at hl
    have hkind : l.kind = .prerequisite ↔ linkKind? dependencies a l.id = some .prerequisite := by
      rw [hl, Option.some_inj]
    rw [hkind, linkKind?_eq_prerequisite_iff, List.mem_map]
    simp only [Dependency.terms, Prod.mk.injEq]

end Graph

end Milestones
