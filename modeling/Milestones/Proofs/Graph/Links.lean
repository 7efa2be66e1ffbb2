import Milestones.Graph.Basic
import Milestones.Proofs.Outcome

/-!
# The links of a graph

A graph stores every link twice, with the predecessors of one end and with the successors of
the other.  Both copies are what the dependency records say: there is a link if some record
joins the two milestones, and it is a prerequisite if any of those records is one.

`Graph.Built` covers every graph that milestones and dependencies can make, in whatever order
they are added.  What holds of all of them is `Graph.Linked`.

## Main definitions

* `Graph.Leads`: one milestone depends on another, in any way.
* `Graph.Built`: graphs made from records.
* `Graph.linkKind?`: the kind of a link according to records.

## Main statements

* `Graph.Built.linked`: both copies of every link agree with the records.
* `Graph.Linked.leads_iff_mem_predecessors`, `Graph.Linked.mem_dependents_iff`: a link can be
  read from either end.
-/

namespace Milestones

/-! ## One link -/

/-- The kind of a link once a record of the given kind joins its ends. -/
def DependencyKind.onto (kind : DependencyKind) (old : Option DependencyKind) : DependencyKind :=
  old.elim kind (·.strongest kind)

/-- Adding a link changes the entry of its neighbour alone. -/
theorem get?_addLink (links : Table Link) (link : Link) (id : MilestoneId) :
    (addLink links link).get? id =
      if link.id = id then some ⟨link.id, link.kind.onto ((links.get? id).map Link.kind)⟩
      else links.get? id := by
  have hid : ∀ kind, recordId (⟨link.id, kind⟩ : Link) = link.id := fun _ => rfl
  rw [addLink]
  split
  · rename_i hnone
    rw [Table.get?_insert, hid]
    by_cases h : link.id = id
    · subst h
      rw [if_pos rfl, if_pos rfl, hnone]
      rfl
    · rw [if_neg h, if_neg h]
  · rename_i old hold
    rw [Table.get?_insert, hid]
    by_cases h : link.id = id
    · subst h
      rw [if_pos rfl, if_pos rfl, hold]
      rfl
    · rw [if_neg h, if_neg h]

/-- A link is in a table exactly if its neighbour stands there with its kind. -/
theorem mem_toList_iff_kind {links : Table Link} {l : Link} :
    l ∈ links.toList ↔ (links.get? l.id).map Link.kind = some l.kind := by
  rw [Option.map_eq_some_iff]
  constructor
  · intro h
    exact ⟨l, Table.get?_eq_some_iff.2 ⟨h, rfl⟩, rfl⟩
  · rintro ⟨l', h, hkind⟩
    obtain ⟨hmem, hid⟩ := Table.get?_eq_some_iff.1 h
    have hl : l' = l := by
      cases l'
      cases l
      cases hid
      cases hkind
      rfl
    rwa [← hl]

namespace Graph

/-! ## Graphs made from records -/

/-- The second milestone depends on the first, in any way. -/
def Leads (g : Graph) (a b : MilestoneId) : Prop := b ∈ (g.successors a).map Link.id

instance (g : Graph) (a b : MilestoneId) : Decidable (g.Leads a b) :=
  inferInstanceAs (Decidable (b ∈ (g.successors a).map Link.id))

/-- Graphs made from milestones and dependencies, added in any order. -/
inductive Built : Graph → Prop where
  | empty (c : ContractId) : Built { contractId := c }
  | addMilestone {g g' : Graph} (m : Milestone) :
      Built g → g.addMilestone m = .ok g' → Built g'
  | addDependency {g g' : Graph} (e : Dependency) :
      Built g → g.addDependency e = .ok g' → Built g'

/-- The graph of a list of milestones and a list of dependencies is built from them. -/
theorem built_of_ofRecords {c : ContractId} {milestones : List Milestone}
    {dependencies : List Dependency} {g : Graph}
    (h : ofRecords c milestones dependencies = .ok g) : g.Built := by
  obtain ⟨g₁, h₁, h₂⟩ := Outcome.bind_eq_ok.1 h
  have hg₁ : g₁.Built :=
    Outcome.foldlM_invariant Built (fun _ m _ hs hm => hs.addMilestone m hm) (.empty c) h₁
  exact Outcome.foldlM_invariant Built (fun _ e _ hs he => hs.addDependency e he) hg₁ h₂

/-! ## The kinds of links -/

/-- The kind of the link from a prerequisite, among the predecessors of its dependent. -/
def predecessorKind? (g : Graph) (dependent prerequisite : MilestoneId) :
    Option DependencyKind :=
  (g.nodes.get? dependent).bind fun n => (n.predecessors.get? prerequisite).map Link.kind

/-- The kind of the link to a dependent, among the successors of its prerequisite. -/
def successorKind? (g : Graph) (prerequisite dependent : MilestoneId) :
    Option DependencyKind :=
  (g.nodes.get? prerequisite).bind fun n => (n.successors.get? dependent).map Link.kind

/-- The kind of the link that records make from a prerequisite to its dependent. -/
def linkKind? (edges : List Dependency) (dependent prerequisite : MilestoneId) :
    Option DependencyKind :=
  edges.foldl
    (fun old e =>
      if e.milestoneId = dependent ∧ e.dependsOnId = prerequisite then some (e.kind.onto old)
      else old)
    none

/-- Both copies of every link are what the records say, and no record leads outside. -/
structure Linked (g : Graph) : Prop where
  predecessorKind?_eq : ∀ a b, g.predecessorKind? a b = linkKind? g.edges a b
  successorKind?_eq : ∀ a b, g.successorKind? b a = linkKind? g.edges a b
  contains_ends : ∀ e ∈ g.edges,
    g.contains e.milestoneId = true ∧ g.contains e.dependsOnId = true

theorem linkKind?_append_singleton (edges : List Dependency) (e : Dependency)
    (a b : MilestoneId) :
    linkKind? (edges ++ [e]) a b =
      if e.milestoneId = a ∧ e.dependsOnId = b then some (e.kind.onto (linkKind? edges a b))
      else linkKind? edges a b := by
  rw [linkKind?, List.foldl_append]
  rfl

/-- Without a record between two milestones there is no link. -/
theorem linkKind?_eq_none {edges : List Dependency} {a b : MilestoneId}
    (h : ∀ e ∈ edges, ¬(e.milestoneId = a ∧ e.dependsOnId = b)) : linkKind? edges a b = none := by
  rw [linkKind?]
  induction edges with
  | nil => rfl
  | cons e rest ih =>
    rw [List.foldl_cons, if_neg (h e List.mem_cons_self)]
    exact ih fun e' he' => h e' (List.mem_cons_of_mem _ he')

/-- A link comes from a record. -/
theorem exists_of_linkKind?_eq_some {edges : List Dependency} {a b : MilestoneId}
    {kind : DependencyKind} (h : linkKind? edges a b = some kind) :
    ∃ e ∈ edges, e.milestoneId = a ∧ e.dependsOnId = b := by
  refine Classical.byContradiction fun hnone => ?_
  rw [linkKind?_eq_none fun e he hab => hnone ⟨e, he, hab⟩] at h
  cases h

/-! ## Adding a milestone -/

/-- What adding a milestone does. -/
theorem addMilestone_eq_ok {g g' : Graph} {m : Milestone} (h : g.addMilestone m = .ok g') :
    m.contractId = g.contractId ∧ g.contains m.id = false ∧
      g' = { g with nodes := g.nodes.insert { milestone := m } } := by
  rw [addMilestone] at h
  split at h
  · cases h
  · rename_i hc
    split at h
    · cases h
    · rename_i hm
      cases h
      exact ⟨Decidable.not_not.1 hc, Bool.eq_false_iff.2 hm, rfl⟩

/-- A new milestone has no links. -/
theorem get?_addMilestone {g g' : Graph} {m : Milestone} (h : g.addMilestone m = .ok g')
    (id : MilestoneId) :
    g'.nodes.get? id = if m.id = id then some { milestone := m } else g.nodes.get? id := by
  obtain ⟨-, -, rfl⟩ := addMilestone_eq_ok h
  rw [Table.get?_insert]
  rfl

theorem contains_addMilestone {g g' : Graph} {m : Milestone} (h : g.addMilestone m = .ok g')
    (id : MilestoneId) :
    g'.contains id = true ↔ m.id = id ∨ g.contains id = true := by
  simp only [contains, Table.contains, get?_addMilestone h]
  by_cases e : m.id = id <;> simp [e]

/-- A milestone outside the graph has no links in it. -/
theorem get?_eq_none_of_not_contains {g : Graph} {id : MilestoneId}
    (h : g.contains id = false) : g.nodes.get? id = none := by
  simpa [contains, Table.contains] using h

theorem Linked.addMilestone {g g' : Graph} {m : Milestone} (hg : g.Linked)
    (h : g.addMilestone m = .ok g') : g'.Linked := by
  obtain ⟨-, hm, hg'⟩ := addMilestone_eq_ok h
  have hedges : g'.edges = g.edges := by rw [hg']
  have hnone : g.nodes.get? m.id = none := get?_eq_none_of_not_contains hm
  refine ⟨fun a b => ?_, fun a b => ?_, fun e he => ?_⟩
  · rw [hedges, ← hg.predecessorKind?_eq]
    simp only [predecessorKind?, get?_addMilestone h]
    by_cases e : m.id = a
    · subst e
      simp [hnone]
    · rw [if_neg e]
  · rw [hedges, ← hg.successorKind?_eq]
    simp only [successorKind?, get?_addMilestone h]
    by_cases e : m.id = b
    · subst e
      simp [hnone]
    · rw [if_neg e]
  · rw [hedges] at he
    obtain ⟨h₁, h₂⟩ := hg.contains_ends e he
    exact ⟨(contains_addMilestone h _).2 (.inr h₁), (contains_addMilestone h _).2 (.inr h₂)⟩

/-! ## Adding a dependency -/

/-- What adding a dependency does. -/
theorem addDependency_eq_ok {g g' : Graph} {e : Dependency} (h : g.addDependency e = .ok g') :
    g.contains e.milestoneId = true ∧ g.contains e.dependsOnId = true ∧
      g' = { g with
        nodes := (g.nodes.modify e.milestoneId fun n =>
            { n with predecessors := addLink n.predecessors ⟨e.dependsOnId, e.kind⟩ }).modify
          e.dependsOnId fun n =>
            { n with successors := addLink n.successors ⟨e.milestoneId, e.kind⟩ }
        edges := g.edges ++ [e] } := by
  rw [addDependency] at h
  split at h
  · cases h
  · rename_i hm
    split at h
    · cases h
    · rename_i hd
      cases h
      exact ⟨by simpa [contains] using hm, by simpa [contains] using hd, rfl⟩

/-- A new dependency changes the predecessors of its dependent and the successors of its
prerequisite. -/
theorem get?_addDependency {g g' : Graph} {e : Dependency} (h : g.addDependency e = .ok g')
    (id : MilestoneId) :
    g'.nodes.get? id = (g.nodes.get? id).map fun n =>
      { milestone := n.milestone
        predecessors :=
          if e.milestoneId = id then addLink n.predecessors ⟨e.dependsOnId, e.kind⟩
          else n.predecessors
        successors :=
          if e.dependsOnId = id then addLink n.successors ⟨e.milestoneId, e.kind⟩
          else n.successors } := by
  obtain ⟨-, -, hg'⟩ := addDependency_eq_ok h
  rw [hg']
  change (Table.modify _ _ _).get? id = _
  rw [Table.get?_modify, Table.get?_modify]
  · by_cases hm : e.milestoneId = id <;> by_cases hd : e.dependsOnId = id <;>
      simp [hm, hd, Function.comp_def]
  · exact fun _ => rfl
  · exact fun _ => rfl

theorem contains_addDependency {g g' : Graph} {e : Dependency} (h : g.addDependency e = .ok g')
    (id : MilestoneId) : g'.contains id = g.contains id := by
  simp [contains, Table.contains, get?_addDependency h]

theorem predecessorKind?_addDependency {g g' : Graph} {e : Dependency}
    (h : g.addDependency e = .ok g') (a b : MilestoneId) :
    g'.predecessorKind? a b =
      if e.milestoneId = a ∧ e.dependsOnId = b then some (e.kind.onto (g.predecessorKind? a b))
      else g.predecessorKind? a b := by
  simp only [predecessorKind?, get?_addDependency h]
  cases hn : g.nodes.get? a with
  | none =>
    have hm : e.milestoneId ≠ a := by
      rintro rfl
      have := (addDependency_eq_ok h).1
      simp [contains, Table.contains, hn] at this
    simp [hm]
  | some n =>
    by_cases hm : e.milestoneId = a
    · by_cases hd : e.dependsOnId = b <;> simp [hm, hd, get?_addLink]
    · simp [hm]

theorem successorKind?_addDependency {g g' : Graph} {e : Dependency}
    (h : g.addDependency e = .ok g') (a b : MilestoneId) :
    g'.successorKind? b a =
      if e.milestoneId = a ∧ e.dependsOnId = b then some (e.kind.onto (g.successorKind? b a))
      else g.successorKind? b a := by
  simp only [successorKind?, get?_addDependency h]
  cases hn : g.nodes.get? b with
  | none =>
    have hd : e.dependsOnId ≠ b := by
      rintro rfl
      have := (addDependency_eq_ok h).2.1
      simp [contains, Table.contains, hn] at this
    simp [hd]
  | some n =>
    by_cases hd : e.dependsOnId = b
    · by_cases hm : e.milestoneId = a <;> simp [hm, hd, get?_addLink]
    · simp [hd]

theorem Linked.addDependency {g g' : Graph} {e : Dependency} (hg : g.Linked)
    (h : g.addDependency e = .ok g') : g'.Linked := by
  obtain ⟨hm, hd, hg'⟩ := addDependency_eq_ok h
  have hedges : g'.edges = g.edges ++ [e] := by rw [hg']
  refine ⟨fun a b => ?_, fun a b => ?_, fun e' he' => ?_⟩
  · rw [predecessorKind?_addDependency h, hedges, linkKind?_append_singleton,
      hg.predecessorKind?_eq]
  · rw [successorKind?_addDependency h, hedges, linkKind?_append_singleton,
      hg.successorKind?_eq]
  · rw [contains_addDependency h, contains_addDependency h]
    rw [hedges, List.mem_append, List.mem_singleton] at he'
    rcases he' with he' | rfl
    · exact hg.contains_ends e' he'
    · exact ⟨hm, hd⟩

/-- Both copies of every link agree with the records. -/
theorem Built.linked {g : Graph} (hg : g.Built) : g.Linked := by
  induction hg with
  | empty c => exact ⟨fun _ _ => rfl, fun _ _ => rfl, nofun⟩
  | addMilestone m _ h ih => exact ih.addMilestone h
  | addDependency e _ h ih => exact ih.addDependency h

/-! ## Reading links -/

/-- A link is among the predecessors of a milestone exactly with its kind. -/
theorem mem_predecessors_iff {g : Graph} {id : MilestoneId} {l : Link} :
    l ∈ g.predecessors id ↔ g.predecessorKind? id l.id = some l.kind := by
  simp only [predecessors, predecessorKind?]
  cases g.nodes.get? id with
  | none => simp
  | some n => exact mem_toList_iff_kind

/-- A link is among the successors of a milestone exactly with its kind. -/
theorem mem_successors_iff {g : Graph} {id : MilestoneId} {l : Link} :
    l ∈ g.successors id ↔ g.successorKind? id l.id = some l.kind := by
  simp only [successors, successorKind?]
  cases g.nodes.get? id with
  | none => simp
  | some n => exact mem_toList_iff_kind

/-- The links that constrain timing are those of that kind. -/
theorem mem_filter_isPrerequisite_iff {links : List Link} {id : MilestoneId} :
    id ∈ (links.filter Link.isPrerequisite).map Link.id ↔ ⟨id, .prerequisite⟩ ∈ links := by
  constructor
  · intro h
    obtain ⟨⟨_, kind⟩, hl, rfl⟩ := List.mem_map.1 h
    obtain ⟨hmem, hkind⟩ := List.mem_filter.1 hl
    have heq : kind = .prerequisite := eq_of_beq hkind
    rwa [heq] at hmem
  · intro h
    exact List.mem_map.2 ⟨_, List.mem_filter.2 ⟨h, rfl⟩, rfl⟩

theorem mem_prerequisites_iff {g : Graph} {a b : MilestoneId} :
    a ∈ g.prerequisites b ↔ g.predecessorKind? b a = some .prerequisite := by
  rw [prerequisites, mem_filter_isPrerequisite_iff, mem_predecessors_iff]

theorem mem_dependents_iff {g : Graph} {a b : MilestoneId} :
    b ∈ g.dependents a ↔ g.successorKind? a b = some .prerequisite := by
  rw [dependents, mem_filter_isPrerequisite_iff, mem_successors_iff]

theorem leads_iff {g : Graph} {a b : MilestoneId} :
    g.Leads a b ↔ ∃ kind, g.successorKind? a b = some kind := by
  constructor
  · intro h
    obtain ⟨l, hl, rfl⟩ := List.mem_map.1 h
    exact ⟨l.kind, mem_successors_iff.1 hl⟩
  · rintro ⟨kind, h⟩
    exact List.mem_map.2 ⟨⟨b, kind⟩, mem_successors_iff.2 h, rfl⟩

namespace Linked

variable {g : Graph} (hg : g.Linked)
include hg

/-- Both ends of a link know its kind. -/
theorem successorKind?_eq_predecessorKind? (a b : MilestoneId) :
    g.successorKind? a b = g.predecessorKind? b a := by
  rw [hg.successorKind?_eq, hg.predecessorKind?_eq]

/-- A prerequisite link can be read from either end. -/
theorem mem_dependents_iff_mem_prerequisites {a b : MilestoneId} :
    b ∈ g.dependents a ↔ a ∈ g.prerequisites b := by
  rw [mem_dependents_iff, mem_prerequisites_iff, hg.successorKind?_eq_predecessorKind?]

/-- A link of either kind can be read from either end. -/
theorem leads_iff_mem_predecessors {a b : MilestoneId} :
    g.Leads a b ↔ a ∈ (g.predecessors b).map Link.id := by
  simp only [leads_iff, hg.successorKind?_eq_predecessorKind?, List.mem_map,
    mem_predecessors_iff]
  constructor
  · rintro ⟨kind, h⟩
    exact ⟨⟨a, kind⟩, h, rfl⟩
  · rintro ⟨l, h, rfl⟩
    exact ⟨l.kind, h⟩

/-- A prerequisite is a link. -/
theorem leads_of_mem_prerequisites {a b : MilestoneId} (h : a ∈ g.prerequisites b) :
    g.Leads a b := by
  rw [hg.leads_iff_mem_predecessors]
  obtain ⟨l, hl, rfl⟩ := List.mem_map.1 h
  exact List.mem_map_of_mem (List.mem_filter.1 hl).1

/-- Links stay inside the graph. -/
theorem contains_of_leads {a b : MilestoneId} (h : g.Leads a b) :
    g.contains a = true ∧ g.contains b = true := by
  obtain ⟨kind, h⟩ := leads_iff.1 h
  rw [hg.successorKind?_eq] at h
  obtain ⟨e, he, rfl, rfl⟩ := exists_of_linkKind?_eq_some h
  exact (hg.contains_ends e he).symm

theorem contains_of_mem_prerequisites {a b : MilestoneId} (h : a ∈ g.prerequisites b) :
    g.contains a = true ∧ g.contains b = true :=
  hg.contains_of_leads (hg.leads_of_mem_prerequisites h)

theorem contains_of_mem_dependents {a b : MilestoneId} (h : b ∈ g.dependents a) :
    g.contains a = true ∧ g.contains b = true :=
  hg.contains_of_mem_prerequisites (hg.mem_dependents_iff_mem_prerequisites.1 h)

end Linked

end Graph

end Milestones
