import Milestones.Proofs.Graph.Order
import Milestones.Proofs.Keyed

/-!
# What the report of cycles says

When the rounds of placing end early, the report is made from the milestones that are left.  It
never looks at the graph again: each of them knows what it still waits for, and that is all of
its predecessors that are left.  No path between milestones that are left is lost by this,
because whatever a milestone that is left leads to is left as well.

## Main definitions

* `Waiting.Awaits`: waiting among the milestones that are left.
* `CycleReport.Describes`: the report says exactly which milestones are on cycles, how they
  hang together, and which ones are behind a cycle.

## Main statements

* `Waiting.mem_behind_iff`: what a milestone is behind of, directly or indirectly.
* `Graph.workOrder_describes_of_not_acyclic`: a graph with a cycle gets a report that describes
  it.
-/

namespace Milestones

open Relation Waiting

/-! ## Waiting for each other -/

namespace Waiting

/-- The second milestone is left and waits for the first. -/
def Awaits (stuck : List Waiting) (p id : MilestoneId) : Prop :=
  ∃ w ∈ stuck, w.id = id ∧ p ∈ w.unmet

/-- A list of milestones that wait for nothing outside the list. -/
structure Closed (stuck : List Waiting) : Prop where
  nodup : (stuck.map Waiting.id).Nodup
  mem_of_mem_unmet : ∀ w ∈ stuck, ∀ p ∈ w.unmet, p ∈ stuck.map Waiting.id

/-- What a milestone that is left waits for. -/
def awaited (stuck : List Waiting) (id : MilestoneId) : List MilestoneId :=
  ((stuck.find? fun v => v.id == id).map Waiting.unmet).getD []

theorem behind_eq (stuck : List Waiting) (w : Waiting) :
    behind stuck w = spread (awaited stuck) stuck.length w.unmet w.unmet := rfl

theorem awaited_of_mem {stuck : List Waiting} (h : (stuck.map Waiting.id).Nodup) {w : Waiting}
    (hw : w ∈ stuck) : awaited stuck w.id = w.unmet := by
  rw [awaited, (find?_key_eq_some_iff h).2 ⟨hw, rfl⟩]
  rfl

theorem mem_awaited_iff {stuck : List Waiting} (h : (stuck.map Waiting.id).Nodup)
    {p id : MilestoneId} : p ∈ awaited stuck id ↔ Awaits stuck p id := by
  constructor
  · intro hp
    cases hv : stuck.find? fun v => v.id == id with
    | none =>
      rw [awaited, hv] at hp
      cases hp
    | some v =>
      rw [awaited, hv] at hp
      obtain ⟨hmem, hid⟩ := of_find?_key hv
      exact ⟨v, hmem, hid, hp⟩
  · rintro ⟨v, hv, rfl, hp⟩
    rw [awaited_of_mem h hv]
    exact hp

/-- The search for what a milestone is behind of finds just that. -/
theorem mem_behind_iff {stuck : List Waiting} (h : Closed stuck) {w : Waiting} (hw : w ∈ stuck)
    {x : MilestoneId} : x ∈ behind stuck w ↔ TransGen (Awaits stuck) x w.id := by
  have hdomain : ∀ a, ∀ b ∈ awaited stuck a, b ∈ stuck.map Waiting.id := by
    intro a b hb
    obtain ⟨v, hv, -, hbv⟩ := (mem_awaited_iff h.nodup).1 hb
    exact h.mem_of_mem_unmet v hv b hbv
  have hrounds := card_sdiff_le_length (stuck.map Waiting.id) w.unmet
  rw [List.length_map] at hrounds
  have hspread := mem_spread_iff (x := x) hdomain (fun _ ha => ha)
    (fun a ha hna => absurd ha hna) hrounds
  -- The search goes against the direction of waiting.
  have hswap : ∀ a, ReflTransGen (fun a b => b ∈ awaited stuck a) a x ↔
      ReflTransGen (Awaits stuck) x a := by
    intro a
    rw [← reflTransGen_swap]
    simp only [mem_awaited_iff h.nodup]
  rw [behind_eq, hspread, TransGen.tail'_iff, ← awaited_of_mem h.nodup hw]
  simp only [hswap]
  simp only [mem_awaited_iff h.nodup]
  constructor
  · intro ⟨a, ha, hxa⟩
    exact ⟨a, hxa, ha⟩
  · intro ⟨a, hxa, ha⟩
    exact ⟨a, ha, hxa⟩

end Waiting

namespace CycleReport

/-! ## The parts of a report -/

/-- The milestones that are left, ascending, each with all that it is behind of. -/
def reach (stuck : List Waiting) : List (MilestoneId × List MilestoneId) :=
  (stuck.mergeSort fun a b => a.id ≤ b.id).map fun w => (w.id, behind stuck w)

/-- Those of them that are behind themselves. -/
def cyclic (stuck : List Waiting) : List (MilestoneId × List MilestoneId) :=
  (reach stuck).filter fun e => e.2.contains e.1

/-- Those of them that are behind a milestone which is behind them. -/
def group (stuck : List Waiting) (e : MilestoneId × List MilestoneId) : List MilestoneId :=
  ((cyclic stuck).filter fun e' => e.2.contains e'.1 && e'.2.contains e.1).map Prod.fst

theorem ofStuck_eq (c : ContractId) (stuck : List Waiting) :
    ofStuck c stuck =
      { contractId := c
        members := (cyclic stuck).map Prod.fst
        groups := (cyclic stuck).filterMap fun e =>
          if (group stuck e).head? = some e.1 then some (group stuck e) else none
        blocked := ((reach stuck).filter fun e => !e.2.contains e.1).map Prod.fst } := rfl

/-- Milestones in ascending order, without repetition. -/
theorem pairwise_lt_of_le {ids : List MilestoneId} (hle : ids.Pairwise (· ≤ ·))
    (hnodup : ids.Nodup) : ids.Pairwise (· < ·) := by
  refine (hle.and hnodup).imp fun {a b} hab => ?_
  have hne : a.value ≠ b.value := fun e => hab.2 (RecordId.ext e)
  exact RecordId.lt_iff.2 (Nat.lt_of_le_of_ne hab.1 hne)

/-- Ascending lists with the same members are equal. -/
theorem eq_of_ascending {ids ids' : List MilestoneId} (h : ids.Pairwise (· < ·))
    (h' : ids'.Pairwise (· < ·)) (hmem : ∀ x, x ∈ ids ↔ x ∈ ids') : ids = ids' := by
  have hne : ∀ {a b : MilestoneId}, a < b → a ≠ b := by
    rintro a _ hlt rfl
    exact Nat.lt_irrefl _ hlt
  have hperm : ids.Perm ids' :=
    (List.perm_ext_iff_of_nodup (h.imp hne) (h'.imp hne)).2 hmem
  refine List.Perm.eq_of_pairwise (fun a b _ _ hab hba => ?_) h h' hperm
  exact absurd (Nat.lt_trans hab hba) (Nat.lt_irrefl _)

variable {stuck : List Waiting} (h : Closed stuck)
include h

theorem ascending_reach : ((reach stuck).map Prod.fst).Pairwise (· < ·) := by
  rw [reach, List.map_map]
  change ((stuck.mergeSort fun a b => a.id ≤ b.id).map Waiting.id).Pairwise (· < ·)
  refine pairwise_lt_of_le (List.pairwise_map.2 ?_) ?_
  · have hsorted : (stuck.mergeSort fun a b => a.id ≤ b.id).Pairwise
        fun a b => decide (a.id ≤ b.id) = true := by
      refine List.pairwise_mergeSort (fun a b c => ?_) (fun a b => ?_) stuck
      · simp only [decide_eq_true_eq, RecordId.le_iff]
        omega
      · simp only [Bool.or_eq_true, decide_eq_true_eq, RecordId.le_iff]
        omega
    exact hsorted.imp of_decide_eq_true
  · exact ((List.mergeSort_perm stuck _).map Waiting.id).nodup_iff.2 h.nodup

/-- Each entry is a milestone that is left with all that it is behind of. -/
theorem mem_reach {e : MilestoneId × List MilestoneId} (he : e ∈ reach stuck) :
    e.1 ∈ stuck.map Waiting.id ∧ ∀ x, e.2.contains x = true ↔ TransGen (Awaits stuck) x e.1 := by
  obtain ⟨w, hw, rfl⟩ := List.mem_map.1 he
  have hw := List.mem_mergeSort.1 hw
  refine ⟨List.mem_map_of_mem hw, fun x => ?_⟩
  rw [List.contains_iff_mem]
  exact mem_behind_iff h hw

omit h in
theorem exists_mem_reach {id : MilestoneId} (hid : id ∈ stuck.map Waiting.id) :
    ∃ e ∈ reach stuck, e.1 = id := by
  obtain ⟨w, hw, rfl⟩ := List.mem_map.1 hid
  exact ⟨_, List.mem_map_of_mem (List.mem_mergeSort.2 hw), rfl⟩

theorem mem_cyclic_iff {e : MilestoneId × List MilestoneId} :
    e ∈ cyclic stuck ↔ e ∈ reach stuck ∧ TransGen (Awaits stuck) e.1 e.1 := by
  rw [cyclic, List.mem_filter]
  constructor
  · rintro ⟨he, hself⟩
    exact ⟨he, ((mem_reach h he).2 e.1).1 hself⟩
  · rintro ⟨he, hself⟩
    exact ⟨he, ((mem_reach h he).2 e.1).2 hself⟩

theorem exists_mem_cyclic {id : MilestoneId} (hid : TransGen (Awaits stuck) id id) :
    ∃ e ∈ cyclic stuck, e.1 = id := by
  obtain ⟨_, -, w, hw, hwid, -⟩ := TransGen.tail'_iff.1 hid
  obtain ⟨e, he, rfl⟩ := exists_mem_reach (List.mem_map.2 ⟨w, hw, hwid⟩)
  exact ⟨e, (mem_cyclic_iff h).2 ⟨he, hid⟩, rfl⟩

/-- The members are the milestones behind themselves. -/
theorem mem_map_cyclic_iff {id : MilestoneId} :
    id ∈ (cyclic stuck).map Prod.fst ↔ TransGen (Awaits stuck) id id := by
  constructor
  · intro hid
    obtain ⟨e, he, rfl⟩ := List.mem_map.1 hid
    exact ((mem_cyclic_iff h).1 he).2
  · intro hid
    obtain ⟨e, he, rfl⟩ := exists_mem_cyclic h hid
    exact List.mem_map_of_mem he

theorem ascending_cyclic : ((cyclic stuck).map Prod.fst).Pairwise (· < ·) :=
  (ascending_reach h).sublist (List.filter_sublist.map Prod.fst)

/-- A group holds what is before and behind one milestone. -/
theorem mem_group_iff {e : MilestoneId × List MilestoneId} (he : e ∈ reach stuck)
    {x : MilestoneId} :
    x ∈ group stuck e ↔
      TransGen (Awaits stuck) e.1 x ∧ TransGen (Awaits stuck) x e.1 := by
  have hin := (mem_reach h he).2
  constructor
  · intro hx
    obtain ⟨e', he', rfl⟩ := List.mem_map.1 hx
    obtain ⟨hcyclic, hboth⟩ := List.mem_filter.1 he'
    obtain ⟨h₁, h₂⟩ := Bool.and_eq_true_iff.1 hboth
    have hin' := (mem_reach h ((mem_cyclic_iff h).1 hcyclic).1).2
    exact ⟨(hin' e.1).1 h₂, (hin e'.1).1 h₁⟩
  · rintro ⟨hex, hxe⟩
    obtain ⟨e', he', rfl⟩ := exists_mem_cyclic h (hxe.trans hex)
    have hin' := (mem_reach h ((mem_cyclic_iff h).1 he').1).2
    refine List.mem_map_of_mem (List.mem_filter.2 ⟨he', ?_⟩)
    rw [Bool.and_eq_true]
    exact ⟨(hin e'.1).2 hxe, (hin' e.1).2 hex⟩

theorem ascending_group (e : MilestoneId × List MilestoneId) :
    (group stuck e).Pairwise (· < ·) :=
  (ascending_cyclic h).sublist (List.filter_sublist.map Prod.fst)

/-- The groups are the classes of milestones that are behind each other. -/
theorem mem_groups_iff {c : ContractId} {ids : List MilestoneId} :
    ids ∈ (ofStuck c stuck).groups ↔
      ids.Pairwise (· < ·) ∧ ∃ id, TransGen (Awaits stuck) id id ∧
        ∀ x, x ∈ ids ↔ TransGen (Awaits stuck) id x ∧ TransGen (Awaits stuck) x id := by
  rw [ofStuck_eq, List.mem_filterMap]
  constructor
  · rintro ⟨e, he, hids⟩
    split at hids
    · cases hids
      obtain ⟨hreach, hself⟩ := (mem_cyclic_iff h).1 he
      exact ⟨ascending_group h e, e.1, hself, fun x => mem_group_iff h hreach⟩
    · cases hids
  · rintro ⟨hasc, id, hself, hids⟩
    -- The group is listed once, with its least member.
    cases hhead : ids.head? with
    | none =>
      rw [List.head?_eq_none_iff.1 hhead] at hids
      cases (hids id).2 ⟨hself, hself⟩
    | some first =>
      obtain ⟨hto, hback⟩ := (hids first).1 (List.mem_of_mem_head? hhead)
      obtain ⟨e, he, rfl⟩ := exists_mem_cyclic h (hback.trans hto)
      have heq : group stuck e = ids := by
        refine eq_of_ascending (ascending_group h e) hasc fun x => ?_
        rw [mem_group_iff h ((mem_cyclic_iff h).1 he).1, hids]
        exact both_iff_of_both hback hto
      exact ⟨e, he, by rw [heq, if_pos hhead]⟩

/-- The groups are listed by their least members. -/
theorem ascending_groups (c : ContractId) : (ofStuck c stuck).groups.Pairwise (· < ·) := by
  rw [ofStuck_eq, List.pairwise_filterMap]
  refine (List.pairwise_map.1 (ascending_cyclic h)).imp fun {e e'} hlt ids hids ids' hids' => ?_
  split at hids
  · rename_i hhead
    cases hids
    split at hids'
    · rename_i hhead'
      cases hids'
      obtain ⟨rest, hrest⟩ := List.head?_eq_some_iff.1 hhead
      obtain ⟨rest', hrest'⟩ := List.head?_eq_some_iff.1 hhead'
      rw [hrest, hrest']
      exact List.cons_lt_cons_iff.2 (.inl hlt)
    · cases hids'
  · cases hids

/-- The blocked milestones are left without being behind themselves. -/
theorem mem_blocked_iff {c : ContractId} {id : MilestoneId} :
    id ∈ (ofStuck c stuck).blocked ↔
      id ∈ stuck.map Waiting.id ∧ ¬TransGen (Awaits stuck) id id := by
  rw [ofStuck_eq, List.mem_map]
  constructor
  · rintro ⟨e, he, rfl⟩
    obtain ⟨hreach, hself⟩ := List.mem_filter.1 he
    obtain ⟨hin, hbehind⟩ := mem_reach h hreach
    refine ⟨hin, fun hcycle => ?_⟩
    rw [(hbehind e.1).2 hcycle] at hself
    cases hself
  · rintro ⟨hin, hself⟩
    obtain ⟨e, he, rfl⟩ := exists_mem_reach hin
    refine ⟨e, List.mem_filter.2 ⟨he, ?_⟩, rfl⟩
    rw [Bool.not_eq_true']
    exact Bool.eq_false_iff.2 fun hc => hself (((mem_reach h he).2 e.1).1 hc)

end CycleReport

/-! ## The report on a graph -/

/-- The report names the milestones that reach themselves, groups them by which of them reach
each other, and names those that a cycle reaches without coming back.  All lists are
ascending. -/
structure CycleReport.Describes (r : CycleReport) (g : Graph) : Prop where
  contractId_eq : r.contractId = g.contractId
  mem_members : ∀ id, id ∈ r.members ↔ g.OnCycle id
  mem_groups : ∀ ids, ids ∈ r.groups ↔
    ids.Pairwise (· < ·) ∧
      ∃ id, g.OnCycle id ∧ ∀ x, x ∈ ids ↔ g.Reaches id x ∧ g.Reaches x id
  existsUnique_group : ∀ id ∈ r.members, ∃! ids, ids ∈ r.groups ∧ id ∈ ids
  mem_blocked : ∀ id, id ∈ r.blocked ↔ ¬g.OnCycle id ∧ ∃ c, g.OnCycle c ∧ g.Reaches c id
  members_ascending : r.members.Pairwise (· < ·)
  groups_ascending : r.groups.Pairwise (· < ·)
  blocked_ascending : r.blocked.Pairwise (· < ·)

namespace Graph

theorem nodup_waiting (g : Graph) : (g.waiting.map Waiting.id).Nodup := by
  rw [waiting, List.map_map]
  have hperm := (List.mergeSort_perm g.nodes.toList
    fun a b => ranksBefore a.milestone b.milestone).map fun n => n.milestone.id
  refine hperm.nodup_iff.2 (List.pairwise_map.2 (g.nodes.ascending.imp fun {a b} hlt heq => ?_))
  rw [RecordId.lt_iff] at hlt
  exact Nat.ne_of_lt hlt (congrArg RecordId.value heq)

namespace Placement

variable {g : Graph} {placed : List MilestoneId} {left : List Waiting}
  (h : g.Placement placed left) (hg : g.Linked)
include h hg

/-- What is left waits for all its predecessors that are left. -/
theorem awaits_iff {p id : MilestoneId} :
    Awaits left p id ↔
      p ∈ left.map Waiting.id ∧ id ∈ left.map Waiting.id ∧ g.Leads p id := by
  rw [h.mem_left_iff hg, h.mem_left_iff hg, h.left_eq]
  constructor
  · rintro ⟨v, hv, rfl, hp⟩
    obtain ⟨w, hw, hout, rfl⟩ := mem_remaining.1 hv
    obtain ⟨hin, hunmet⟩ := mem_waiting hg hw
    obtain ⟨hp, hpout⟩ := List.mem_filter.1 hp
    have hleads := (hunmet p).1 hp
    exact ⟨⟨(hg.contains_of_leads hleads).1, by simpa using hpout⟩, ⟨hin, hout⟩, hleads⟩
  · rintro ⟨⟨-, hpout⟩, ⟨hin, hout⟩, hleads⟩
    obtain ⟨w, hw, rfl⟩ := exists_mem_waiting hin
    refine ⟨_, mem_remaining.2 ⟨w, hw, hout, rfl⟩, rfl, List.mem_filter.2 ⟨?_, ?_⟩⟩
    · exact ((mem_waiting hg hw).2 p).2 hleads
    · simpa using hpout

theorem closed : Closed left := by
  constructor
  · rw [h.left_eq]
    exact g.nodup_waiting.sublist (map_id_remaining_sublist placed g.waiting)
  · intro w hw p hp
    exact ((h.awaits_iff hg).1 ⟨w, hw, rfl, hp⟩).1

/-- Whatever a milestone that is left leads to is left as well. -/
theorem mem_left_of_leads {a b : MilestoneId} (ha : a ∈ left.map Waiting.id)
    (hab : g.Leads a b) : b ∈ left.map Waiting.id := by
  obtain ⟨c, hc, hca⟩ := (h.mem_left_iff_exists_onCycle hg).1 ha
  exact (h.mem_left_iff_exists_onCycle hg).2 ⟨c, hc, hca.tail hab⟩

/-- Waiting for each other among what is left is reaching each other. -/
theorem transGen_awaits_iff {a b : MilestoneId} :
    TransGen (Awaits left) a b ↔ a ∈ left.map Waiting.id ∧ g.Reaches a b := by
  constructor
  · intro hab
    obtain ⟨_, hfirst, -⟩ := TransGen.head'_iff.1 hab
    refine ⟨((h.awaits_iff hg).1 hfirst).1, ?_⟩
    exact TransGen.mono (fun _ _ hstep => ((h.awaits_iff hg).1 hstep).2.2) a b hab
  · rintro ⟨ha, hab⟩
    have hboth : TransGen (Awaits left) a b ∧ b ∈ left.map Waiting.id := by
      induction hab with
      | single hab =>
        have hb := h.mem_left_of_leads hg ha hab
        exact ⟨.single ((h.awaits_iff hg).2 ⟨ha, hb, hab⟩), hb⟩
      | tail _ hbc ih =>
        obtain ⟨hab, hb⟩ := ih
        have hc := h.mem_left_of_leads hg hb hbc
        exact ⟨hab.tail ((h.awaits_iff hg).2 ⟨hb, hc, hbc⟩), hc⟩
    exact hboth.1

/-- Cycles are left as a whole. -/
theorem transGen_awaits_self_iff {id : MilestoneId} :
    TransGen (Awaits left) id id ↔ g.OnCycle id := by
  rw [h.transGen_awaits_iff hg]
  refine ⟨And.right, fun hid => ⟨?_, hid⟩⟩
  exact (h.mem_left_iff_exists_onCycle hg).2 ⟨id, hid, .refl⟩

/-- The classes of what is left are the classes of the graph. -/
theorem transGen_awaits_both_iff {a b : MilestoneId} :
    TransGen (Awaits left) a b ∧ TransGen (Awaits left) b a ↔
      g.Reaches a b ∧ g.Reaches b a := by
  rw [h.transGen_awaits_iff hg, h.transGen_awaits_iff hg]
  constructor
  · rintro ⟨⟨-, hab⟩, -, hba⟩
    exact ⟨hab, hba⟩
  · rintro ⟨hab, hba⟩
    have ha := ((h.transGen_awaits_self_iff hg).2 (hab.trans hba))
    have hb := ((h.transGen_awaits_self_iff hg).2 (hba.trans hab))
    exact ⟨⟨((h.transGen_awaits_iff hg).1 ha).1, hab⟩, ((h.transGen_awaits_iff hg).1 hb).1, hba⟩

theorem mem_members_iff {id : MilestoneId} :
    id ∈ (CycleReport.ofStuck g.contractId left).members ↔ g.OnCycle id := by
  rw [← h.transGen_awaits_self_iff hg]
  exact CycleReport.mem_map_cyclic_iff (h.closed hg)

theorem mem_groups_iff {ids : List MilestoneId} :
    ids ∈ (CycleReport.ofStuck g.contractId left).groups ↔
      ids.Pairwise (· < ·) ∧
        ∃ id, g.OnCycle id ∧ ∀ x, x ∈ ids ↔ g.Reaches id x ∧ g.Reaches x id := by
  rw [CycleReport.mem_groups_iff (h.closed hg)]
  simp only [h.transGen_awaits_self_iff hg, h.transGen_awaits_both_iff hg]

/-- No milestone is in two groups. -/
theorem existsUnique_group {id : MilestoneId} (hid : g.OnCycle id) :
    ∃! ids, ids ∈ (CycleReport.ofStuck g.contractId left).groups ∧ id ∈ ids := by
  have hclosed := h.closed hg
  obtain ⟨e, he, rfl⟩ :=
    CycleReport.exists_mem_cyclic hclosed ((h.transGen_awaits_self_iff hg).2 hid)
  have hasc := CycleReport.ascending_group hclosed e
  have hclass : ∀ x, x ∈ CycleReport.group left e ↔ g.Reaches e.1 x ∧ g.Reaches x e.1 := by
    intro x
    rw [CycleReport.mem_group_iff hclosed ((CycleReport.mem_cyclic_iff hclosed).1 he).1,
      h.transGen_awaits_both_iff hg]
  refine ⟨CycleReport.group left e, ⟨?_, (hclass e.1).2 ⟨hid, hid⟩⟩, ?_⟩
  · exact (h.mem_groups_iff hg).2 ⟨hasc, e.1, hid, hclass⟩
  · intro ids ⟨hids, hin⟩
    obtain ⟨hasc', c, -, hmem⟩ := (h.mem_groups_iff hg).1 hids
    obtain ⟨hto, hback⟩ := (hmem e.1).1 hin
    refine CycleReport.eq_of_ascending hasc' hasc fun x => ?_
    rw [hmem, hclass]
    exact both_iff_of_both hto hback

theorem mem_blocked_iff {id : MilestoneId} :
    id ∈ (CycleReport.ofStuck g.contractId left).blocked ↔
      ¬g.OnCycle id ∧ ∃ c, g.OnCycle c ∧ g.Reaches c id := by
  rw [CycleReport.mem_blocked_iff (h.closed hg), h.transGen_awaits_self_iff hg,
    h.mem_left_iff_exists_onCycle hg]
  constructor
  · rintro ⟨⟨c, hc, hcid⟩, hid⟩
    refine ⟨hid, c, hc, ?_⟩
    rcases reflTransGen_iff_eq_or_transGen.1 hcid with rfl | hcid
    · exact absurd hc hid
    · exact hcid
  · rintro ⟨hid, c, hc, hcid⟩
    exact ⟨⟨c, hc, hcid.to_reflTransGen⟩, hid⟩

/-- The report on what is left describes the graph. -/
theorem describes : (CycleReport.ofStuck g.contractId left).Describes g := by
  have hclosed := h.closed hg
  constructor
  · rfl
  · exact fun id => h.mem_members_iff hg
  · exact fun ids => h.mem_groups_iff hg
  · exact fun id hid => h.existsUnique_group hg ((h.mem_members_iff hg).1 hid)
  · exact fun id => h.mem_blocked_iff hg
  · exact CycleReport.ascending_cyclic hclosed
  · exact CycleReport.ascending_groups hclosed _
  · exact (CycleReport.ascending_reach hclosed).sublist (List.filter_sublist.map Prod.fst)

end Placement

/-- A graph with a cycle gets no order of work but a report that describes it. -/
theorem workOrder_describes_of_not_acyclic {g : Graph} (hg : g.Built) (hcyclic : ¬g.Acyclic) :
    ∃ r, g.workOrder = .error r ∧ r.Describes g := by
  obtain ⟨placed, left, hp, ⟨hleft, -⟩ | ⟨-, herr⟩⟩ := exists_placement hg.linked
  · exact absurd ((hp.left_eq_nil_iff hg.linked).1 hleft) hcyclic
  · exact ⟨_, herr, hp.describes hg.linked⟩

/-! ## A knot -/

/-- Five milestones of equal rank. -/
def knotMilestones : List Milestone :=
  let plain (id : MilestoneId) : Milestone :=
    { id := id, contractId := 1, title := "", sequenceNumber := 1 }
  [plain 1, plain 2, plain 3, plain 4, plain 5]

/-- The first milestone waits for itself, the next two for each other and for the first, the
fourth is behind them, and the last is free. -/
def knotDependencies : List Dependency :=
  [⟨1, 1, 1, .prerequisite⟩, ⟨2, 2, 1, .parallel⟩, ⟨3, 3, 2, .prerequisite⟩,
    ⟨4, 2, 3, .parallel⟩, ⟨5, 4, 3, .prerequisite⟩]

/-- The knot as a graph. -/
def knot : Graph :=
  match ofRecords 1 knotMilestones knotDependencies with
  | .ok g => g
  | .error _ => { contractId := 1 }

theorem built_knot : knot.Built := by
  have hok : ofRecords 1 knotMilestones knotDependencies = .ok knot := rfl
  exact built_of_ofRecords hok

/-- A milestone between two cycles would be blocked; one on the second cycle is not. -/
theorem workOrder_knot : knot.Built ∧ ¬knot.Acyclic ∧
    ∃ r, knot.workOrder = .error r ∧ r.Describes knot ∧
      r.groups = [[1], [2, 3]] ∧ r.blocked = [4] := by
  have hcyclic : ¬knot.Acyclic := fun h => h 1 (.single (by decide))
  obtain ⟨r, hr, hdescribes⟩ := workOrder_describes_of_not_acyclic built_knot hcyclic
  have herr : knot.workOrder = .error ⟨1, [1, 2, 3], [[1], [2, 3]], [4]⟩ := by cbv
  cases hr.symm.trans herr
  exact ⟨built_knot, hcyclic, _, herr, hdescribes, rfl, rfl⟩

end Graph

end Milestones
