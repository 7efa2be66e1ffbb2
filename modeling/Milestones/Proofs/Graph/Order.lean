import Milestones.Proofs.Graph.Reachability

/-!
# The order of work is the least one

Placing goes round by round, and each round changes every waiting milestone.  What the rounds
leave behind is nevertheless a function of the milestones placed so far: `Waiting.remaining`.
With it the state of the loop is known at every place of the order, and one round is one look
at the ranked list.

An order is determined by one rule.  Next comes the first by rank of the milestones that are
not placed yet and whose predecessors all are.  There is such an order exactly if no milestone
reaches itself.

## Main definitions

* `Graph.Eligible`: the milestones that may come next.
* `Graph.Precedes`: the rank that decides among them.
* `Graph.IsWorkOrder`: the orders that follow the rule to the end.

## Main statements

* `Graph.placement_placeReady`: what the rounds do, whether or not they place everything.
* `Graph.IsWorkOrder.unique`: a graph has at most one order.
* `Graph.workOrder_eq_ok_iff`: an order is found exactly if there is no cycle, and it is the
  one that follows the rule.
-/

namespace Milestones

open Relation

/-! ## What remains -/

namespace Waiting

/-- What is left of some waiting milestones once others are placed. -/
def remaining (placed : List MilestoneId) (waiting : List Waiting) : List Waiting :=
  (waiting.filter fun w => !placed.contains w.id).map fun w =>
    ⟨w.id, w.unmet.filter fun p => !placed.contains p⟩

/-- What is left after one round. -/
def afterRound (id : MilestoneId) (waiting : List Waiting) : List Waiting :=
  (waiting.filter fun v => v.id != id).map (release id)

@[simp] theorem remaining_nil (waiting : List Waiting) : remaining [] waiting = waiting := by
  simp [remaining]

theorem not_contains_cons (id p : MilestoneId) (placed : List MilestoneId) :
    (!(id :: placed).contains p) = (!placed.contains p && p != id) := by
  rw [List.contains_cons, Bool.not_or, Bool.and_comm]
  rfl

/-- Placing one more milestone first is one round. -/
theorem remaining_cons (id : MilestoneId) (placed : List MilestoneId) (waiting : List Waiting) :
    remaining (id :: placed) waiting = remaining placed (afterRound id waiting) := by
  rw [remaining, remaining, afterRound, List.filter_map, List.map_map, List.filter_filter]
  simp only [not_contains_cons]
  refine List.map_congr_left fun w _ => ?_
  simp only [release, Function.comp_apply, List.filter_filter]

theorem mem_remaining {placed : List MilestoneId} {waiting : List Waiting} {v : Waiting} :
    v ∈ remaining placed waiting ↔
      ∃ w ∈ waiting, w.id ∉ placed ∧
        v = ⟨w.id, w.unmet.filter fun p => !placed.contains p⟩ := by
  simp only [remaining, List.mem_map, List.mem_filter]
  constructor
  · rintro ⟨w, ⟨hw, hid⟩, rfl⟩
    exact ⟨w, hw, by simpa using hid, rfl⟩
  · rintro ⟨w, hw, hid, rfl⟩
    exact ⟨w, ⟨hw, by simpa using hid⟩, rfl⟩

/-- What remains stays in its order. -/
theorem map_id_remaining_sublist (placed : List MilestoneId) (waiting : List Waiting) :
    ((remaining placed waiting).map Waiting.id).Sublist (waiting.map Waiting.id) := by
  rw [remaining, List.map_map]
  exact List.filter_sublist.map Waiting.id

theorem isReady_iff {w : Waiting} : w.isReady = true ↔ ∀ p, p ∉ w.unmet := by
  rw [isReady, List.isEmpty_iff, List.eq_nil_iff_forall_not_mem]

theorem length_afterRound_lt {w : Waiting} {waiting : List Waiting} (hw : w ∈ waiting) :
    (afterRound w.id waiting).length < waiting.length := by
  rw [afterRound, List.length_map]
  refine List.length_filter_lt_length_iff_exists.2 ⟨w, hw, ?_⟩
  simp

end Waiting

open Waiting

/-! ## Rounds -/

theorem placeReady_of_none {waiting : List Waiting} (h : waiting.find? isReady = none)
    (rounds : Nat) : placeReady rounds waiting = ([], waiting) := by
  cases rounds with
  | zero => rfl
  | succ rounds => simp only [placeReady, h]

theorem placeReady_of_some {waiting : List Waiting} {w : Waiting}
    (h : waiting.find? isReady = some w) (rounds : Nat) :
    placeReady (rounds + 1) waiting =
      (w.id :: (placeReady rounds (afterRound w.id waiting)).1,
        (placeReady rounds (afterRound w.id waiting)).2) := by
  simp only [placeReady, h]
  rfl

/-- The rounds leave what remains besides the placed milestones. -/
theorem snd_placeReady (rounds : Nat) (waiting : List Waiting) :
    (placeReady rounds waiting).2 = remaining (placeReady rounds waiting).1 waiting := by
  induction rounds generalizing waiting with
  | zero => exact (remaining_nil waiting).symm
  | succ rounds ih =>
    cases h : waiting.find? isReady with
    | none =>
      rw [placeReady_of_none h]
      exact (remaining_nil waiting).symm
    | some w =>
      rw [placeReady_of_some h, remaining_cons]
      exact ih _

/-- Each placed milestone was the first ready one of those that remained. -/
theorem find?_remaining_of_placeReady {rounds : Nat} {waiting : List Waiting}
    {placed later : List MilestoneId} {id : MilestoneId}
    (h : (placeReady rounds waiting).1 = placed ++ id :: later) :
    ∃ w, (remaining placed waiting).find? isReady = some w ∧ w.id = id := by
  induction rounds generalizing waiting placed with
  | zero => simp [placeReady] at h
  | succ rounds ih =>
    cases hf : waiting.find? isReady with
    | none =>
      rw [placeReady_of_none hf] at h
      simp at h
    | some w =>
      rw [placeReady_of_some hf] at h
      cases placed with
      | nil =>
        rw [remaining_nil]
        exact ⟨w, hf, (List.cons.inj h).1⟩
      | cons first placed =>
        obtain ⟨hfirst, hrest⟩ := List.cons.inj h
        rw [← hfirst, remaining_cons]
        exact ih hrest

/-- After enough rounds nothing is ready. -/
theorem find?_snd_placeReady {rounds : Nat} {waiting : List Waiting}
    (hrounds : waiting.length ≤ rounds) :
    (placeReady rounds waiting).2.find? isReady = none := by
  induction rounds generalizing waiting with
  | zero =>
    rw [List.length_eq_zero_iff.1 (Nat.le_zero.1 hrounds)]
    rfl
  | succ rounds ih =>
    cases h : waiting.find? isReady with
    | none =>
      rw [placeReady_of_none h]
      exact h
    | some w =>
      rw [placeReady_of_some h]
      refine ih ?_
      have := length_afterRound_lt (List.mem_of_find?_eq_some h)
      omega

namespace Graph

/-! ## The rule -/

/-- The milestone is not placed yet, and all that it depends on is. -/
structure Eligible (g : Graph) (placed : List MilestoneId) (id : MilestoneId) : Prop where
  contains : g.contains id = true
  notMem : id ∉ placed
  mem_of_leads : ∀ p, g.Leads p id → p ∈ placed

/-- The first milestone ranks before the second or is the same: the lower sequence number goes
first, then the lower identifier. -/
def Precedes (g : Graph) (a b : MilestoneId) : Prop :=
  ∃ m n, g.milestone? a = some m ∧ g.milestone? b = some n ∧
    (m.sequenceNumber < n.sequenceNumber ∨ m.sequenceNumber = n.sequenceNumber ∧ a ≤ b)

/-- The milestone may come next and ranks before all others that may. -/
structure IsNext (g : Graph) (placed : List MilestoneId) (id : MilestoneId) : Prop where
  eligible : g.Eligible placed id
  precedes : ∀ other, g.Eligible placed other → g.Precedes id other

/-- Every milestone once, each after all that it depends on, and at every place the one that is
next. -/
structure IsWorkOrder (g : Graph) (ids : List MilestoneId) : Prop where
  nodup : ids.Nodup
  mem_iff : ∀ id, id ∈ ids ↔ g.contains id = true
  idxOf_lt : ∀ a b, g.Leads a b → ids.idxOf a < ids.idxOf b
  isNext : ∀ placed id later, ids = placed ++ id :: later → g.IsNext placed id

/-! ## The ranked list -/

theorem exists_milestone? {g : Graph} {id : MilestoneId} (h : g.contains id = true) :
    ∃ m, g.milestone? id = some m := by
  obtain ⟨n, hn⟩ := Option.isSome_iff_exists.1 h
  exact ⟨n.milestone, by simp [milestone?, hn]⟩

theorem exists_contains {g : Graph} (h : 0 < g.size) : ∃ m, g.contains m = true := by
  obtain ⟨n, hn⟩ := List.exists_mem_of_length_pos h
  have hget : g.nodes.get? n.milestone.id = some n := Table.get?_eq_some_iff.2 ⟨hn, rfl⟩
  exact ⟨n.milestone.id, by simp [contains, Table.contains, hget]⟩

theorem ranksBefore_iff {a b : Milestone} :
    ranksBefore a b = true ↔ a.sequenceNumber.toInt < b.sequenceNumber.toInt ∨
      a.sequenceNumber.toInt = b.sequenceNumber.toInt ∧ a.id.value ≤ b.id.value := by
  simp [ranksBefore, Int32.lt_iff_toInt_lt, ← Int32.toInt_inj, RecordId.le_iff]

theorem precedes_antisymm {g : Graph} {a b : MilestoneId} (hab : g.Precedes a b)
    (hba : g.Precedes b a) : a = b := by
  obtain ⟨m, n, hm, hn, hmn⟩ := hab
  obtain ⟨n', m', hn', hm', hnm⟩ := hba
  cases hm.symm.trans hm'
  cases hn.symm.trans hn'
  simp only [Int32.lt_iff_toInt_lt, ← Int32.toInt_inj, RecordId.le_iff] at hmn hnm
  refine RecordId.ext ?_
  omega

/-- Ranked milestones stand in their rank. -/
theorem pairwise_waiting (g : Graph) : (g.waiting.map Waiting.id).Pairwise g.Precedes := by
  have hrank : (g.nodes.toList.mergeSort fun a b => ranksBefore a.milestone b.milestone).Pairwise
      fun a b => ranksBefore a.milestone b.milestone = true := by
    refine List.pairwise_mergeSort (fun a b c => ?_) (fun a b => ?_) _
    · simp only [ranksBefore_iff]
      omega
    · rw [Bool.or_eq_true, ranksBefore_iff, ranksBefore_iff]
      omega
  have hfind : ∀ n ∈ g.nodes.toList.mergeSort fun a b => ranksBefore a.milestone b.milestone,
      g.milestone? n.milestone.id = some n.milestone := by
    intro n hn
    have hget : g.nodes.get? n.milestone.id = some n :=
      Table.get?_eq_some_iff.2 ⟨List.mem_mergeSort.1 hn, rfl⟩
    simp [milestone?, hget]
  rw [waiting, List.map_map, List.pairwise_map]
  refine hrank.imp_of_mem fun {a b} ha hb hab => ?_
  refine ⟨a.milestone, b.milestone, hfind a ha, hfind b hb, ?_⟩
  rw [ranksBefore_iff] at hab
  simpa only [Int32.lt_iff_toInt_lt, ← Int32.toInt_inj, RecordId.le_iff, Function.comp_apply]
    using hab

/-- What waits is a milestone of the graph and waits for its predecessors. -/
theorem mem_waiting {g : Graph} (hg : g.Linked) {w : Waiting} (hw : w ∈ g.waiting) :
    g.contains w.id = true ∧ ∀ p, p ∈ w.unmet ↔ g.Leads p w.id := by
  obtain ⟨n, hn, rfl⟩ := List.mem_map.1 hw
  have hget : g.nodes.get? n.milestone.id = some n :=
    Table.get?_eq_some_iff.2 ⟨List.mem_mergeSort.1 hn, rfl⟩
  refine ⟨by simp [contains, Table.contains, hget], fun p => ?_⟩
  rw [hg.leads_iff_mem_predecessors]
  simp [predecessors, hget, Table.ids, Table.toList, recordId]

theorem exists_mem_waiting {g : Graph} {id : MilestoneId} (h : g.contains id = true) :
    ∃ w ∈ g.waiting, w.id = id := by
  obtain ⟨n, hn⟩ := Option.isSome_iff_exists.1 h
  obtain ⟨hmem, hid⟩ := Table.get?_eq_some_iff.1 hn
  exact ⟨_, List.mem_map_of_mem (List.mem_mergeSort.2 hmem), hid⟩

/-- What may come next is what is ready among those that remain. -/
theorem eligible_iff {g : Graph} (hg : g.Linked) {placed : List MilestoneId}
    {id : MilestoneId} :
    g.Eligible placed id ↔
      ∃ w ∈ remaining placed g.waiting, w.isReady = true ∧ w.id = id := by
  constructor
  · rintro ⟨hin, hout, hbefore⟩
    obtain ⟨w, hw, rfl⟩ := exists_mem_waiting hin
    refine ⟨_, mem_remaining.2 ⟨w, hw, hout, rfl⟩, isReady_iff.2 fun p hp => ?_, rfl⟩
    obtain ⟨hp, hpout⟩ := List.mem_filter.1 hp
    have := hbefore p (((mem_waiting hg hw).2 p).1 hp)
    simp [this] at hpout
  · rintro ⟨v, hv, hready, rfl⟩
    obtain ⟨w, hw, hout, rfl⟩ := mem_remaining.1 hv
    obtain ⟨hin, hunmet⟩ := mem_waiting hg hw
    refine ⟨hin, hout, fun p hp => ?_⟩
    by_contra hpout
    exact isReady_iff.1 hready p (List.mem_filter.2 ⟨(hunmet p).2 hp, by simpa using hpout⟩)

/-- The first ready one of those that remain is next. -/
theorem isNext_of_find? {g : Graph} (hg : g.Linked) {placed : List MilestoneId} {w : Waiting}
    (h : (remaining placed g.waiting).find? isReady = some w) : g.IsNext placed w.id := by
  obtain ⟨hready, before, after, hsplit, hbefore⟩ := List.find?_eq_some_iff_append.1 h
  refine ⟨(eligible_iff hg).2 ⟨w, List.mem_of_find?_eq_some h, hready, rfl⟩, ?_⟩
  intro other hother
  obtain ⟨v, hv, hvready, rfl⟩ := (eligible_iff hg).1 hother
  have hrank := g.pairwise_waiting.sublist (map_id_remaining_sublist placed g.waiting)
  rw [hsplit, List.map_append, List.map_cons, List.pairwise_append, List.pairwise_cons] at hrank
  rw [hsplit, List.mem_append, List.mem_cons] at hv
  rcases hv with hv | rfl | hv
  · have := hbefore v hv
    simp [hvready] at this
  · obtain ⟨m, hm⟩ := exists_milestone? hother.contains
    exact ⟨m, m, hm, hm, .inr ⟨rfl, Nat.le_refl _⟩⟩
  · exact hrank.2.1.1 v.id (List.mem_map_of_mem hv)

/-! ## What the rounds do -/

/-- Each milestone was next when it was placed, and in the end none may come next. -/
structure Placement (g : Graph) (placed : List MilestoneId) (left : List Waiting) : Prop where
  left_eq : left = remaining placed g.waiting
  isNext : ∀ earlier id later, placed = earlier ++ id :: later → g.IsNext earlier id
  not_eligible : ∀ id, ¬g.Eligible placed id

/-- The rounds place what is next until nothing may come next. -/
theorem placement_placeReady {g : Graph} (hg : g.Linked) :
    g.Placement (placeReady g.waiting.length g.waiting).1
      (placeReady g.waiting.length g.waiting).2 := by
  refine ⟨snd_placeReady _ _, fun earlier id later h => ?_, fun id h => ?_⟩
  · obtain ⟨w, hw, rfl⟩ := find?_remaining_of_placeReady h
    exact isNext_of_find? hg hw
  · obtain ⟨w, hw, hready, -⟩ := (eligible_iff hg).1 h
    have hnone := find?_snd_placeReady (Nat.le_refl g.waiting.length)
    rw [snd_placeReady] at hnone
    exact List.find?_eq_none.1 hnone w hw hready

/-- A list without repetition, said of every place in it. -/
theorem nodup_of_forall_notMem {α : Type} {l : List α}
    (h : ∀ earlier a later, l = earlier ++ a :: later → a ∉ earlier) : l.Nodup := by
  induction l using List.reverseRecOn with
  | nil => exact List.nodup_nil
  | append_singleton l a ih =>
    have hl : l.Nodup := by
      refine ih fun earlier b later hsplit => h earlier b (later ++ [a]) ?_
      rw [hsplit, List.append_assoc, List.cons_append]
    have ha : a ∉ l := h l a [] rfl
    rw [← List.concat_eq_append, List.nodup_concat]
    exact ⟨ha, hl⟩

namespace Placement

variable {g : Graph} {placed : List MilestoneId} {left : List Waiting}
  (h : g.Placement placed left)
include h

theorem eligible_of_mem {id : MilestoneId} (hid : id ∈ placed) :
    ∃ earlier later, placed = earlier ++ id :: later ∧ g.Eligible earlier id := by
  obtain ⟨earlier, later, hsplit⟩ := List.append_of_mem hid
  exact ⟨earlier, later, hsplit, (h.isNext earlier id later hsplit).eligible⟩

theorem contains_of_mem {id : MilestoneId} (hid : id ∈ placed) : g.contains id = true := by
  obtain ⟨_, _, -, helig⟩ := h.eligible_of_mem hid
  exact helig.contains

/-- No milestone is placed twice. -/
theorem nodup : placed.Nodup := by
  refine nodup_of_forall_notMem fun earlier id later hsplit => ?_
  exact (h.isNext earlier id later hsplit).eligible.notMem

/-- What is placed comes after all that leads to it. -/
theorem idxOf_lt {a b : MilestoneId} (hab : g.Leads a b) (hb : b ∈ placed) :
    a ∈ placed ∧ placed.idxOf a < placed.idxOf b := by
  obtain ⟨earlier, later, rfl, helig⟩ := h.eligible_of_mem hb
  have ha : a ∈ earlier := helig.mem_of_leads a hab
  refine ⟨List.mem_append_left _ ha, ?_⟩
  rw [List.idxOf_append_of_mem ha, List.idxOf_append_of_notMem helig.notMem,
    List.idxOf_cons_self]
  have := List.idxOf_lt_length_iff.2 ha
  omega

/-- All that leads to a placed milestone, over however many links, is placed before it. -/
theorem idxOf_lt_of_reaches {a b : MilestoneId} (hab : g.Reaches a b) (hb : b ∈ placed) :
    a ∈ placed ∧ placed.idxOf a < placed.idxOf b := by
  induction hab with
  | single hab => exact h.idxOf_lt hab hb
  | tail _ hbc ih =>
    obtain ⟨hb', hlt⟩ := h.idxOf_lt hbc hb
    obtain ⟨ha, hlt'⟩ := ih hb'
    exact ⟨ha, by omega⟩

/-- What is left are the milestones that are not placed. -/
theorem mem_left_iff (hg : g.Linked) {id : MilestoneId} :
    id ∈ left.map Waiting.id ↔ g.contains id = true ∧ id ∉ placed := by
  rw [h.left_eq]
  constructor
  · intro hid
    obtain ⟨v, hv, rfl⟩ := List.mem_map.1 hid
    obtain ⟨w, hw, hout, rfl⟩ := mem_remaining.1 hv
    exact ⟨(mem_waiting hg hw).1, hout⟩
  · rintro ⟨hin, hout⟩
    obtain ⟨w, hw, rfl⟩ := exists_mem_waiting hin
    exact List.mem_map.2 ⟨_, mem_remaining.2 ⟨w, hw, hout, rfl⟩, rfl⟩

/-- What is left waits for something that is left. -/
theorem exists_leads_of_mem_left (hg : g.Linked) {id : MilestoneId}
    (hid : id ∈ left.map Waiting.id) : ∃ p ∈ left.map Waiting.id, g.Leads p id := by
  obtain ⟨hin, hout⟩ := (h.mem_left_iff hg).1 hid
  by_contra hnone
  refine h.not_eligible id ⟨hin, hout, fun p hp => ?_⟩
  by_contra hpout
  exact hnone ⟨p, (h.mem_left_iff hg).2 ⟨(hg.contains_of_leads hp).1, hpout⟩, hp⟩

/-- The milestones left are those on a cycle or behind one. -/
theorem mem_left_iff_exists_onCycle (hg : g.Linked) {id : MilestoneId} :
    id ∈ left.map Waiting.id ↔ ∃ c, g.OnCycle c ∧ ReflTransGen g.Leads c id := by
  constructor
  · intro hid
    obtain ⟨c, -, hc, hcid⟩ :=
      exists_cycle_of_forall_exists (fun a ha => h.exists_leads_of_mem_left hg ha) hid
    exact ⟨c, hc, hcid⟩
  · rintro ⟨c, hc, hcid⟩
    have hreach : g.Reaches c id := TransGen.trans_left hc hcid
    obtain ⟨b, -, hb⟩ := TransGen.tail'_iff.1 hreach
    refine (h.mem_left_iff hg).2 ⟨(hg.contains_of_leads hb).2, fun hid => ?_⟩
    -- A placed milestone has its whole past before it, so no cycle leads to it.
    obtain ⟨hcin, -⟩ := h.idxOf_lt_of_reaches hreach hid
    exact absurd (h.idxOf_lt_of_reaches hc hcin).2 (Nat.lt_irrefl _)

/-- Nothing is left exactly if there is no cycle. -/
theorem left_eq_nil_iff (hg : g.Linked) : left = [] ↔ g.Acyclic := by
  rw [← List.map_eq_nil_iff (f := Waiting.id), List.eq_nil_iff_forall_not_mem]
  constructor
  · intro hnone c hc
    exact hnone c ((h.mem_left_iff_exists_onCycle hg).2 ⟨c, hc, .refl⟩)
  · intro hacyclic id hid
    obtain ⟨c, hc, -⟩ := (h.mem_left_iff_exists_onCycle hg).1 hid
    exact hacyclic c hc

/-- A placement that leaves nothing is an order of work. -/
theorem isWorkOrder (hg : g.Linked) (hleft : left = []) : g.IsWorkOrder placed := by
  have hmem : ∀ id, id ∈ placed ↔ g.contains id = true := by
    intro id
    refine ⟨h.contains_of_mem, fun hin => ?_⟩
    by_contra hout
    have hid := (h.mem_left_iff hg).2 ⟨hin, hout⟩
    rw [hleft] at hid
    cases hid
  refine ⟨h.nodup, hmem, fun a b hab => ?_, h.isNext⟩
  exact (h.idxOf_lt hab ((hmem b).2 (hg.contains_of_leads hab).2)).2

end Placement

/-! ## The order -/

/-- The order of work is what the rounds place, unless they leave something. -/
theorem exists_placement {g : Graph} (hg : g.Linked) :
    ∃ placed left, g.Placement placed left ∧
      (left = [] ∧ g.workOrder = .ok ⟨g.contractId, placed⟩ ∨
        left ≠ [] ∧ g.workOrder = .error (.ofStuck g.contractId left)) := by
  have hp := placement_placeReady hg
  cases hrounds : placeReady g.waiting.length g.waiting with
  | mk placed left =>
    rw [hrounds] at hp
    refine ⟨placed, left, hp, ?_⟩
    cases left with
    | nil => exact .inl ⟨rfl, by simp only [workOrder, hrounds]⟩
    | cons w left => exact .inr ⟨List.cons_ne_nil _ _, by simp only [workOrder, hrounds]⟩

/-- An order that is found follows the rule. -/
theorem isWorkOrder_of_workOrder {g : Graph} (hg : g.Linked) {o : WorkOrder}
    (h : g.workOrder = .ok o) : o.contractId = g.contractId ∧ g.IsWorkOrder o.ids := by
  obtain ⟨placed, left, hp, ⟨hleft, hok⟩ | ⟨-, herr⟩⟩ := exists_placement hg
  · cases h.symm.trans hok
    exact ⟨rfl, hp.isWorkOrder hg hleft⟩
  · cases h.symm.trans herr

/-- An order is found if there is no cycle. -/
theorem exists_workOrder_iff {g : Graph} (hg : g.Linked) :
    (∃ o, g.workOrder = .ok o) ↔ g.Acyclic := by
  obtain ⟨placed, left, hp, ⟨hleft, hok⟩ | ⟨hleft, herr⟩⟩ := exists_placement hg
  · exact ⟨fun _ => (hp.left_eq_nil_iff hg).1 hleft, fun _ => ⟨_, hok⟩⟩
  · refine ⟨?_, fun hacyclic => absurd ((hp.left_eq_nil_iff hg).2 hacyclic) hleft⟩
    rintro ⟨o, ho⟩
    cases ho.symm.trans herr

namespace IsWorkOrder

variable {g : Graph}

/-- An order that is over cannot be continued: what comes next would be placed already. -/
theorem not_append_cons {placed later : List MilestoneId} {id : MilestoneId}
    (h : g.IsWorkOrder placed) : ¬g.IsWorkOrder (placed ++ id :: later) := by
  intro h'
  have hid := (h'.isNext placed id later rfl).eligible
  exact hid.notMem ((h.mem_iff id).2 hid.contains)

/-- Two orders that begin alike go on alike. -/
theorem append_unique {placed rest rest' : List MilestoneId}
    (h : g.IsWorkOrder (placed ++ rest)) (h' : g.IsWorkOrder (placed ++ rest')) :
    rest = rest' := by
  induction rest generalizing placed rest' with
  | nil =>
    cases rest' with
    | nil => rfl
    | cons b rest' =>
      rw [List.append_nil] at h
      exact absurd h' h.not_append_cons
  | cons a rest ih =>
    cases rest' with
    | nil =>
      rw [List.append_nil] at h'
      exact absurd h h'.not_append_cons
    | cons b rest' =>
      have ha := h.isNext placed a rest rfl
      have hb := h'.isNext placed b rest' rfl
      obtain rfl := precedes_antisymm (ha.precedes b hb.eligible) (hb.precedes a ha.eligible)
      rw [List.append_cons] at h h'
      rw [ih h h']

/-- A graph has at most one order. -/
theorem unique {ids ids' : List MilestoneId} (h : g.IsWorkOrder ids)
    (h' : g.IsWorkOrder ids') : ids = ids' := by
  have hstart : g.IsWorkOrder ([] ++ ids) := h
  exact append_unique hstart h'

/-- Along an order there is no way back. -/
theorem idxOf_lt_of_reaches {ids : List MilestoneId} (h : g.IsWorkOrder ids)
    {a b : MilestoneId} (hab : g.Reaches a b) : ids.idxOf a < ids.idxOf b := by
  induction hab with
  | single hab => exact h.idxOf_lt _ _ hab
  | tail _ hbc ih => exact Nat.lt_trans ih (h.idxOf_lt _ _ hbc)

/-- A graph with an order has no cycle. -/
theorem acyclic {ids : List MilestoneId} (h : g.IsWorkOrder ids) : g.Acyclic :=
  fun _ hc => Nat.lt_irrefl _ (h.idxOf_lt_of_reaches hc)

end IsWorkOrder

/-- An order is found exactly if no milestone reaches itself over links of either kind, and it
is the one order that holds every milestone once and puts at every place the first by rank of
those whose predecessors all stand before it. -/
theorem workOrder_eq_ok_iff {c : ContractId} {milestones : List Milestone}
    {dependencies : List Dependency} {g : Graph}
    (hg : ofRecords c milestones dependencies = .ok g) :
    ((∃ o, g.workOrder = .ok o) ↔ g.Acyclic) ∧
      ∀ o, g.workOrder = .ok o ↔ o.contractId = g.contractId ∧ g.IsWorkOrder o.ids := by
  have hlinked : g.Linked := (built_of_ofRecords hg).linked
  refine ⟨exists_workOrder_iff hlinked, fun o => ⟨isWorkOrder_of_workOrder hlinked, ?_⟩⟩
  rintro ⟨hc, ho⟩
  obtain ⟨o', ho'⟩ := (exists_workOrder_iff hlinked).2 ho.acyclic
  obtain ⟨hc', hids⟩ := isWorkOrder_of_workOrder hlinked ho'
  rw [ho']
  cases o
  cases o'
  cases hc.trans hc'.symm
  cases ho.unique hids
  rfl

/-! ## A fork -/

/-- Two milestones before a third, and a gate that goes along with one of them. -/
def forkMilestones : List Milestone :=
  let plain (id : MilestoneId) (sequenceNumber : Int32) (span : Option Duration) : Milestone :=
    { id := id, contractId := 1, title := "", sequenceNumber := sequenceNumber,
      estimatedDuration := span }
  [plain 1 5 (some 5), plain 2 1 (some 3), plain 3 1 (some 2), plain 4 (-1) none]

/-- The links of the fork. -/
def forkDependencies : List Dependency :=
  [⟨1, 3, 1, .prerequisite⟩, ⟨2, 3, 2, .prerequisite⟩, ⟨3, 4, 2, .parallel⟩]

/-- The fork as a graph. -/
def fork : Graph :=
  match ofRecords 1 forkMilestones forkDependencies with
  | .ok g => g
  | .error _ => { contractId := 1 }

theorem ofRecords_fork : ofRecords 1 forkMilestones forkDependencies = .ok fork := rfl

/-- The gate waits for a milestone of higher rank, and is free before one of lower rank. -/
theorem isWorkOrder_fork :
    ofRecords 1 forkMilestones forkDependencies = .ok fork ∧ fork.Acyclic ∧
      fork.IsWorkOrder [2, 4, 1, 3] := by
  have hspec := workOrder_eq_ok_iff ofRecords_fork
  have hok : fork.workOrder = .ok ⟨1, [2, 4, 1, 3]⟩ := by cbv
  exact ⟨ofRecords_fork, hspec.1.1 ⟨_, hok⟩, ((hspec.2 _).1 hok).2⟩

end Graph

end Milestones
