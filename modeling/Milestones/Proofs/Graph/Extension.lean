import Milestones.Proofs.Graph.Cycles
import Milestones.Proofs.Graph.Records

/-!
# One more link

A new dependency adds one link to the graph.  What is reached over it is what was reached to its
start and from its end, so a graph without cycles gets one exactly if the dependent led to the
prerequisite already.  All cycles that come of it share the new link: their milestones are those
between its two ends, and the report has them in a single group.

## Main definitions

* `Graph.Extends`: one graph has one more link than the other.
* `Graph.Between`: a milestone on some path from one milestone to another.

## Main statements

* `Graph.Extends.acyclic_iff`: when the new link closes a cycle.
* `Graph.Extends.groups_eq`: what the report says then.
-/

namespace Milestones

open Relation

/-- Over one more pair, what was reached to its start leads to what was reached from its end. -/
theorem transGen_iff_of_iff {α : Type} {r r' : α → α → Prop} {first last a b : α}
    (h : ∀ a b, r' a b ↔ r a b ∨ a = first ∧ b = last) :
    TransGen r' a b ↔ TransGen r a b ∨ ReflTransGen r a first ∧ ReflTransGen r last b := by
  have hsub : ∀ a b, r a b → r' a b := fun a b hab => (h a b).2 (.inl hab)
  constructor
  · intro hab
    induction hab with
    | single hab =>
      rcases (h _ _).1 hab with hab | ⟨rfl, rfl⟩
      · exact .inl (.single hab)
      · exact .inr ⟨.refl, .refl⟩
    | tail _ hbc ih =>
      rcases (h _ _).1 hbc with hbc | ⟨rfl, rfl⟩
      · rcases ih with hab | ⟨hfirst, hlast⟩
        · exact .inl (hab.tail hbc)
        · exact .inr ⟨hfirst, hlast.tail hbc⟩
      · -- The pair is used for the last time here, whatever came before.
        rcases ih with hab | ⟨hfirst, -⟩
        · exact .inr ⟨hab.to_reflTransGen, .refl⟩
        · exact .inr ⟨hfirst, .refl⟩
  · rintro (hab | ⟨hfirst, hlast⟩)
    · exact TransGen.mono hsub _ _ hab
    · have hstep : r' first last := (h _ _).2 (.inr ⟨rfl, rfl⟩)
      have hfirst' : ReflTransGen r' a first := ReflTransGen.mono hsub _ _ hfirst
      exact (TransGen.tail' hfirst' hstep).trans_left (ReflTransGen.mono hsub _ _ hlast)

namespace Graph

/-- The milestone lies on a path from the first one to the second, both of them included. -/
def Between (g : Graph) (a b id : MilestoneId) : Prop :=
  ReflTransGen g.Leads a id ∧ ReflTransGen g.Leads id b

/-- The second graph leads where the first one does and along the dependency. -/
def Extends (g : Graph) (e : Dependency) (g' : Graph) : Prop :=
  ∀ a b, g'.Leads a b ↔ g.Leads a b ∨ a = e.dependsOnId ∧ b = e.milestoneId

/-- A dependency record adds its link. -/
theorem extends_of_addDependency {g g' : Graph} {e : Dependency} (hg : g.Linked)
    (h : g.addDependency e = .ok g') : g.Extends e g' := by
  intro a b
  have hedges : g'.edges = g.edges ++ [e] := by rw [(addDependency_eq_ok h).2.2]
  rw [(hg.addDependency h).leads_iff_recordsLead, hg.leads_iff_recordsLead, hedges]
  constructor
  · rintro ⟨x, hx, rfl, rfl⟩
    rcases List.mem_append.1 hx with hx | hx
    · exact .inl ⟨x, hx, rfl, rfl⟩
    · cases List.mem_singleton.1 hx
      exact .inr ⟨rfl, rfl⟩
  · rintro (⟨x, hx, rfl, rfl⟩ | ⟨rfl, rfl⟩)
    · exact ⟨x, List.mem_append_left _ hx, rfl, rfl⟩
    · exact ⟨e, by simp, rfl, rfl⟩

/-- Records with one more dependency make the graph with one more dependency. -/
theorem ofRecords_append_singleton (c : ContractId) (milestones : List Milestone)
    (dependencies : List Dependency) (e : Dependency) :
    ofRecords c milestones (dependencies ++ [e]) =
      ofRecords c milestones dependencies >>= fun g => g.addDependency e := by
  simp only [ofRecords, List.foldlM_append, bind_assoc]
  refine bind_congr fun g => bind_congr fun g' => ?_
  rw [List.foldlM_cons]
  exact bind_pure _

namespace Extends

variable {g g' : Graph} {e : Dependency} (h : g.Extends e g') (hacyclic : g.Acyclic)
include h hacyclic

/-- The cycles that the new link closes go from its end back to its start. -/
theorem onCycle_iff {id : MilestoneId} :
    g'.OnCycle id ↔ g.Between e.milestoneId e.dependsOnId id := by
  rw [OnCycle, Reaches, transGen_iff_of_iff h]
  constructor
  · rintro (hcycle | ⟨hto, hfrom⟩)
    · exact absurd hcycle (hacyclic id)
    · exact ⟨hfrom, hto⟩
  · rintro ⟨hfrom, hto⟩
    exact .inr ⟨hto, hfrom⟩

/-- A link between different milestones closes a cycle exactly if its end led to its start. -/
theorem acyclic_iff (hne : e.milestoneId ≠ e.dependsOnId) :
    g'.Acyclic ↔ ¬g.Reaches e.milestoneId e.dependsOnId := by
  constructor
  · intro hg' hreaches
    exact hg' e.milestoneId ((h.onCycle_iff hacyclic).2 ⟨.refl, hreaches.to_reflTransGen⟩)
  · intro hreaches id hcycle
    obtain ⟨hfrom, hto⟩ := (h.onCycle_iff hacyclic).1 hcycle
    rcases reflTransGen_iff_eq_or_transGen.1 (hfrom.trans hto) with heq | hback
    · exact hne heq.symm
    · exact hreaches hback

omit hacyclic in
/-- The milestones between the ends of the new link all reach each other over it. -/
theorem reaches_of_between {a b : MilestoneId} (ha : g.Between e.milestoneId e.dependsOnId a)
    (hb : g.Between e.milestoneId e.dependsOnId b) : g'.Reaches a b :=
  (transGen_iff_of_iff h).2 (.inr ⟨ha.2, hb.1⟩)

/-- All cycles make one group: the milestones between the ends of the new link. -/
theorem groups_eq {r : CycleReport} (hr : r.Describes g') (hcyclic : ¬g'.Acyclic) :
    r.groups = [r.members] ∧
      ∀ id, id ∈ r.members ↔ g.Between e.milestoneId e.dependsOnId id := by
  have hmembers : ∀ id, id ∈ r.members ↔ g.Between e.milestoneId e.dependsOnId id :=
    fun id => (hr.mem_members id).trans (h.onCycle_iff hacyclic)
  refine ⟨?_, hmembers⟩
  have hclass : ∀ {id}, g'.OnCycle id → ∀ x, x ∈ r.members ↔ g'.Reaches id x ∧ g'.Reaches x id := by
    intro id hid x
    have hid := (h.onCycle_iff hacyclic).1 hid
    rw [hmembers]
    constructor
    · intro hx
      exact ⟨h.reaches_of_between hid hx, h.reaches_of_between hx hid⟩
    · rintro ⟨hto, hback⟩
      exact (h.onCycle_iff hacyclic).1 (hback.trans hto)
  have hall : ∀ ids ∈ r.groups, ids = r.members := by
    intro ids hids
    obtain ⟨hasc, id, hid, hmem⟩ := (hr.mem_groups ids).1 hids
    refine CycleReport.eq_of_ascending hasc hr.members_ascending fun x => ?_
    rw [hmem, hclass hid]
  have hone : r.members ∈ r.groups := by
    obtain ⟨id, hid⟩ := not_forall_not.1 hcyclic
    exact (hr.mem_groups _).2 ⟨hr.members_ascending, id, hid, hclass hid⟩
  have hnodup : r.groups.Nodup := by
    have hirrefl : Std.Irrefl fun a b : MilestoneId => a < b :=
      ⟨fun _ hlt => Nat.lt_irrefl _ (RecordId.lt_iff.1 hlt)⟩
    refine hr.groups_ascending.imp ?_
    rintro ids _ hlt rfl
    exact List.lt_irrefl ids hlt
  refine List.perm_singleton.1 ((List.perm_ext_iff_of_nodup hnodup (by simp)).2 fun ids => ?_)
  rw [List.mem_singleton]
  exact ⟨hall ids, fun hids => hids ▸ hone⟩

end Extends

end Graph

end Milestones
