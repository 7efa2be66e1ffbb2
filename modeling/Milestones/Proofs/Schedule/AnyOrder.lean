import Milestones.Proofs.Schedule.CriticalChain

/-!
# Timetables along other orders

A timetable may be asked for along an order that was made for another graph.  What is looked at is
the contract and the milestones of the order, not the links.  This is enough as long as the order
puts every milestone after its prerequisites: all such orders lead to the same timings, because
the offsets of a milestone are those that solve the equations, wherever the milestone stands.

Along an order that does not respect the links, a timetable may come out wrong, or its critical
chain may not add up.

## Main definitions

* `Timetable.timingOf`: the timing of a milestone, put together from its offsets.

## Main statements

* `Graph.Timed.forwardPass_eq`, `Graph.Timed.backwardPass_eq`: what the passes compute along any
  sequence, given one solution of the equations.
* `Graph.Timed.draft_eq`, `Graph.Timed.exists_timetable`: what is left to decide then is whether the
  slack adds up.
* `Graph.exists_timetable_of_isSequence`: a timetable along one sequence is a timetable along all.
* `Graph.timetable_of_workOrder`: what becomes of an order that was made for another graph.
-/

namespace Milestones

open Outcome

/-! ## Entries made of offsets -/

namespace Timetable

/-- The timing of a milestone, put together from its offsets. -/
def timingOf (t : Timetable) (m : MilestoneId) : Timing :=
  ⟨m, t.offset Timing.duration m, t.earliestStart m, t.earliestFinish m, t.latestStart m,
    t.latestFinish m, t.slack m, t.freeSlack m⟩

/-- The earliest times of a milestone, put together from its offsets. -/
def earlyOf (t : Timetable) (m : MilestoneId) : Early :=
  ⟨m, t.offset Timing.duration m, t.earliestStart m, t.earliestFinish m⟩

/-- The latest times of a milestone, put together from its offsets. -/
def lateOf (t : Timetable) (m : MilestoneId) : Late :=
  ⟨t.earlyOf m, t.latestStart m, t.latestFinish m⟩

theorem timing?_eq_timingOf {t : Timetable} {m : MilestoneId} {x : Timing}
    (h : t.timing? m = some x) : x = t.timingOf m := by
  obtain rfl : x.milestoneId = m := (of_find?_key h).2
  simp only [timingOf, earliestStart, earliestFinish, latestStart, latestFinish, slack, freeSlack,
    offset_eq h]

end Timetable

namespace Graph.Timed

variable {g : Graph} {t : Timetable} (h : g.Timed t)
include h

/-- The timings of a timetable are made of its offsets. -/
theorem timings_eq : t.timings = t.ids.map t.timingOf := by
  rw [Timetable.ids, List.map_map]
  refine (List.map_id _).symm.trans (List.map_congr_left fun x hx => ?_)
  exact Timetable.timing?_eq_timingOf
    ((Timetable.timing?_eq_some_iff h.isSequence.nodup).2 ⟨hx, rfl⟩)

variable {ids : List MilestoneId} (hids : g.IsSequence ids)
include hids

/-- Along any sequence, the forward pass computes the earliest offsets. -/
theorem forwardPass_eq : forwardPass g [] ids = .ok (ids.map t.earlyOf) := by
  have hsuffix : ∀ after before, ids = before ++ after →
      forwardPass g (before.map t.earlyOf) after = .ok (ids.map t.earlyOf) := by
    intro after
    induction after with
    | nil =>
      intro before hsplit
      rw [hsplit, List.append_nil]
      rfl
    | cons id rest ih =>
      intro before hsplit
      have hid : g.contains id = true := (hids.mem_iff id).1 (by rw [hsplit]; simp)
      have hfinish : (g.prerequisites id).map (finishOf (before.map t.earlyOf)) =
          (g.prerequisites id).map t.earliestFinish := by
        refine List.map_congr_left fun p hp => ?_
        have hbefore := hids.mem_of_mem_prerequisites before id rest hsplit p hp
        rw [finishOf, find?_key_map (fun _ => rfl) hbefore]
        rfl
      have hadd : (t.earliestStart id).add? (g.duration id) = some (t.earliestFinish id) :=
        Duration.add?_eq_some_iff.2 (h.earliestFinish_eq hid)
      have hnext := ih (before ++ [id]) (by rw [hsplit, List.append_cons])
      rw [List.map_append, List.map_singleton, Timetable.earlyOf, h.duration_eq hid] at hnext
      simp only [forwardPass, hfinish, ← h.earliestStart_eq hid, hadd]
      exact hnext
  exact hsuffix ids [] rfl

/-- Along any sequence, the schedule is equally long. -/
theorem totalDuration_map_earlyOf : totalDuration g (ids.map t.earlyOf) = t.total := by
  rw [totalDuration, List.filter_map, List.map_map, h.total_eq]
  refine Duration.maximum?_getD_map_congr (fun m => ?_) t.earliestFinish .zero
  simp only [List.mem_filter, hids.mem_iff, h.isSequence.mem_iff]
  rfl

/-- Along any sequence, the backward pass computes the latest offsets. -/
theorem backwardPass_eq (hg : g.Linked) :
    backwardPass g t.total (ids.map t.earlyOf) = some (ids.map t.lateOf) := by
  have hsuffix : ∀ after before, ids = before ++ after →
      backwardPass g t.total (after.map t.earlyOf) = some (after.map t.lateOf) := by
    intro after
    induction after with
    | nil => exact fun _ _ => rfl
    | cons id rest ih =>
      intro before hsplit
      have hid : g.contains id = true := (hids.mem_iff id).1 (by rw [hsplit]; simp)
      have hstart : (g.dependents id).map (latestStartOf (rest.map t.lateOf)) =
          (g.dependents id).map t.latestStart := by
        refine List.map_congr_left fun b hb => ?_
        have hafter := hids.mem_of_mem_dependents hg hsplit hb
        have hfind : (rest.map t.lateOf).find? (fun l => l.early.id == b) = some (t.lateOf b) :=
          find?_key_map (fun _ => rfl) hafter
        rw [latestStartOf, hfind]
        rfl
      have hsub : (t.latestFinish id).sub? (g.duration id) = some (t.latestStart id) :=
        Duration.sub?_eq_some_iff.2 (h.latestStart_eq hid)
      have hlater := ih (before ++ [id]) (by rw [hsplit, List.append_cons])
      simp only [List.map_cons, backwardPass, hlater, bind, Option.bind, Timetable.earlyOf,
        h.duration_eq hid, hstart, ← h.latestFinish_eq hid, hsub, Timetable.lateOf]
  exact hsuffix ids [] rfl

/-- Along any sequence, the entries of both passes are joined to the timings. -/
theorem mapM_timing?_eq (hg : g.Linked) :
    (ids.map t.lateOf).mapM (Late.timing? g (ids.map t.earlyOf) t.total) =
      some (ids.map t.timingOf) := by
  rw [mapM_eq_some_iff, List.map_map, List.map_map]
  refine List.map_congr_left fun id hid => ?_
  have hin := (hids.mem_iff id).1 hid
  have hstart : (g.dependents id).map (startOf (ids.map t.earlyOf)) =
      (g.dependents id).map t.earliestStart := by
    refine List.map_congr_left fun b hb => ?_
    have hb := (hids.mem_iff b).2 (hg.contains_of_mem_dependents hb).2
    rw [startOf, find?_key_map (fun _ => rfl) hb]
    rfl
  have hslack : (t.latestStart id).sub? (t.earliestStart id) = some (t.slack id) :=
    Duration.sub?_eq_some_iff.2 (h.slack_eq hin)
  have hfreeSlack := Duration.sub?_eq_some_iff.2 (h.freeSlack_eq hin)
  simp only [Function.comp_apply, Late.timing?, Timetable.lateOf, Timetable.earlyOf, bind,
    Option.bind, hslack, hstart, hfreeSlack, Timetable.timingOf]

/-- Along any sequence, the timing of a milestone is found. -/
theorem find?_map_timingOf (m : MilestoneId) :
    (ids.map t.timingOf).find? (fun x => x.milestoneId == m) = t.timing? m := by
  rw [Timetable.timing?]
  by_cases hm : g.contains m = true
  · rw [h.timings_eq, find?_key_map (fun _ => rfl) ((hids.mem_iff m).2 hm),
      find?_key_map (fun _ => rfl) ((h.isSequence.mem_iff m).2 hm)]
  · have hnone : ∀ ids, g.IsSequence ids →
        (ids.map t.timingOf).find? (fun x => x.milestoneId == m) = none := by
      intro ids hids
      refine List.find?_eq_none.2 fun x hx hid => hm ?_
      obtain ⟨n, hn, rfl⟩ := List.mem_map.1 hx
      rw [← eq_of_beq hid]
      exact (hids.mem_iff n).1 hn
    rw [h.timings_eq, hnone _ hids, hnone _ h.isSequence]

/-- Along any sequence, the slack adds up to the same sum. -/
theorem sumDurations_slack_eq (hg : g.Linked) :
    sumDurations (ids.map t.slack) =
      Duration.ofNanos? (t.ids.map fun m => (t.slack m).nanos).sum := by
  have hperm : ids.Perm t.ids := by
    refine (List.perm_ext_iff_of_nodup hids.nodup h.isSequence.nodup).2 fun m => ?_
    rw [hids.mem_iff, h.isSequence.mem_iff]
  rw [sumDurations, Duration.foldlM_add?_zero fun d hd => ?_, List.map_map]
  · exact congrArg Duration.ofNanos? (hperm.map _).sum_eq
  · obtain ⟨m, hm, rfl⟩ := List.mem_map.1 hd
    exact h.zero_le_slack hg ((hids.mem_iff m).1 hm)

end Graph.Timed

namespace Graph

/-! ## One timetable for all sequences -/

/-- Milestones that are all different, about the milestones of the graph, and put after their
prerequisites make a sequence. -/
theorem isSequence_of_idxOf_lt {g : Graph} {ids : List MilestoneId} (hnodup : ids.Nodup)
    (hmem : ∀ id, id ∈ ids ↔ g.contains id = true)
    (hlt : ∀ a b, a ∈ g.prerequisites b → ids.idxOf a < ids.idxOf b) : g.IsSequence ids := by
  refine ⟨hnodup, hmem, fun before id after hsplit p hp => ?_⟩
  have hbefore : id ∉ before := by
    rw [hsplit] at hnodup
    exact fun hid => List.disjoint_of_nodup_append hnodup hid List.mem_cons_self
  by_contra hp'
  have hindex := hlt p id hp
  rw [hsplit, List.idxOf_append_of_notMem hbefore, List.idxOf_append_of_notMem hp'] at hindex
  simp at hindex

/-- Along any sequence, only the sum of the slack decides whether there is a draft. -/
theorem Timed.draft_eq {g : Graph} (hg : g.Linked) {t : Timetable} (h : g.Timed t) {o : WorkOrder}
    (ho : g.IsSequence o.ids) (hcontract : o.contractId = g.contractId) :
    g.draft o =
      (Outcome.orFault .durationRange
        (Duration.ofNanos? (t.ids.map fun m => (t.slack m).nanos).sum)).map fun slackTime =>
          { contractId := g.contractId
            timings := o.ids.map t.timingOf
            total := t.total
            criticalPathDuration := .zero
            slackTime := slackTime
            criticalChain := [] } := by
  have hfits : o.fits g = true := (WorkOrder.fits_iff ho.nodup).2 ⟨hcontract, ho.mem_iff⟩
  have hneg : g.negative? o.ids = none := by
    refine List.find?_eq_none.2 fun m hm => ?_
    have hzero := h.zero_le_duration ((ho.mem_iff m).1 hm)
    simpa [Duration.lt_iff, Duration.zero] using hzero
  have hcheck : g.check o = .ok () := by
    rw [check, hfits, hneg]
    rfl
  have hslack : (o.ids.map t.timingOf).map Timing.slack = o.ids.map t.slack := by
    rw [List.map_map]
    rfl
  rw [draft, hcheck, h.forwardPass_eq ho]
  simp only [bind, Except.bind, Outcome.ofExcept, Except.mapError, h.totalDuration_map_earlyOf ho,
    h.backwardPass_eq ho hg, h.mapM_timing?_eq ho hg, orFault, hslack,
    h.sumDurations_slack_eq ho hg]
  cases Duration.ofNanos? (t.ids.map fun m => (t.slack m).nanos).sum <;> rfl

/-- The slack of a draft adds up. -/
theorem ofNanos?_sum_slack_of_draft {g : Graph} (hg : g.Linked) {o : WorkOrder}
    (ho : g.IsSequence o.ids) {t : Timetable} (h : g.draft o = .ok t) :
    Duration.ofNanos? (t.ids.map fun m => (t.slack m).nanos).sum = some t.slackTime := by
  have ht := timed_of_draft hg ho h
  obtain ⟨-, _, _, -, -, -, -, hslack⟩ := draft_eq_ok h
  rw [← ht.sumDurations_slack_eq ht.isSequence hg, ← hslack, ht.timings_eq, List.map_map]
  rfl

/-- Where the slack adds up, there is a timetable along any sequence, with the timings in its
order. -/
theorem Timed.exists_timetable {g : Graph} (hg : g.Linked) {t : Timetable} (h : g.Timed t)
    {slackTime : Duration}
    (hsum : Duration.ofNanos? (t.ids.map fun m => (t.slack m).nanos).sum = some slackTime)
    {o : WorkOrder} (ho : g.IsSequence o.ids) (hcontract : o.contractId = g.contractId) :
    ∃ t', g.timetable o = .ok t' ∧ t'.timings = o.ids.map t.timingOf ∧ t'.total = t.total ∧
      t'.criticalPathDuration = t.total ∧ t'.slackTime = slackTime := by
  have hdraft := h.draft_eq hg ho hcontract
  rw [hsum] at hdraft
  obtain ⟨t', htraced⟩ := (timed_of_draft hg ho hdraft).exists_traced hg
  refine ⟨t', ?_, ?_⟩
  · rw [timetable_eq]
    exact bind_eq_ok.2 ⟨_, hdraft, htraced⟩
  · obtain ⟨_, -, rfl⟩ := traced_eq_ok htraced
    exact ⟨rfl, rfl, rfl, rfl⟩

/-- A timetable along one sequence is a timetable along any other. -/
theorem exists_timetable_of_isSequence {g : Graph} (hg : g.Linked) {o o' : WorkOrder}
    (ho : g.IsSequence o.ids) (ho' : g.IsSequence o'.ids) (hcontract : o'.contractId = g.contractId)
    {t : Timetable} (h : g.timetable o = .ok t) :
    ∃ t', g.timetable o' = .ok t' ∧ ∀ m, t.timing? m = t'.timing? m := by
  rw [timetable_eq] at h
  obtain ⟨t₁, h₁, htraced⟩ := bind_eq_ok.1 h
  obtain ⟨_, -, rfl⟩ := traced_eq_ok htraced
  have ht₁ := timed_of_draft hg ho h₁
  obtain ⟨t', ht', htimings, -⟩ :=
    ht₁.exists_timetable hg (ofNanos?_sum_slack_of_draft hg ho h₁) ho' hcontract
  refine ⟨t', ht', fun m => ?_⟩
  rw [Timetable.timing?, Timetable.timing?, htimings]
  exact (ht₁.find?_map_timingOf ho' m).symm

/-! ## Orders that were made for another graph -/

/-- An order that does not fit is refused before anything else. -/
theorem timetable_of_not_fits {g : Graph} {o : WorkOrder} (h : o.fits g = false) :
    g.timetable o = .error (.refused (.orderMismatch g.contractId)) := by
  rw [timetable_eq, draft, check, h]
  rfl

/-- An order that was made for another graph is refused for a mismatch exactly if the graphs are
about different contracts or different milestones.  If it puts every milestone after its
prerequisites in this graph, the only fault is a duration out of range, and the timings are those
of the schedule of the graph, provided that there is one.  Otherwise nothing is promised. -/
theorem timetable_of_workOrder {g g₂ : Graph} (hg : g.Built) (hg₂ : g₂.Built) {o : WorkOrder}
    (ho : g₂.workOrder = .ok o) :
    (g.timetable o = .error (.refused (.orderMismatch g.contractId)) ↔
      ¬(g₂.contractId = g.contractId ∧ ∀ id, g₂.contains id = g.contains id)) ∧
    ((∀ a b, a ∈ g.prerequisites b → o.ids.idxOf a < o.ids.idxOf b) →
      (∀ f, g.timetable o = .error (.fault f) → f = .durationRange) ∧
      ∀ t, g.timetable o = .ok t → g.Acyclic →
        ∃ s, Schedule.compute g = .ok s ∧ ∀ id, t.timing? id = s.timetable.timing? id) := by
  obtain ⟨hcontract, horder⟩ := isWorkOrder_of_workOrder hg₂.linked ho
  have hfits : o.fits g = true ↔
      g₂.contractId = g.contractId ∧ ∀ id, g₂.contains id = g.contains id := by
    rw [WorkOrder.fits_iff horder.nodup, hcontract]
    refine and_congr_right fun _ => forall_congr' fun id => ?_
    rw [horder.mem_iff]
    exact Bool.eq_iff_iff.symm
  refine ⟨?_, fun hlt => ?_⟩
  · rw [← hfits, Bool.not_eq_true]
    refine ⟨fun h => ?_, fun h => ?_⟩
    · rcases timetable_eq_refused h with (⟨hnot, -⟩ | ⟨_, -, he⟩) | ⟨_, he⟩
      · exact hnot
      · cases he
      · cases he
    · exact timetable_of_not_fits h
  · cases hfit : o.fits g with
    | false =>
      rw [timetable_of_not_fits hfit]
      exact ⟨nofun, nofun⟩
    | true =>
      obtain ⟨hcontract', hmem⟩ := (WorkOrder.fits_iff horder.nodup).1 hfit
      have hseq := isSequence_of_idxOf_lt horder.nodup hmem hlt
      refine ⟨fun f hf => timetable_eq_fault hg.linked hseq hf, fun t ht hacyclic => ?_⟩
      obtain ⟨o', ho'⟩ := (exists_workOrder_iff hg.linked).2 hacyclic
      obtain ⟨hown, horder'⟩ := isWorkOrder_of_workOrder hg.linked ho'
      obtain ⟨t', ht', htimings⟩ := exists_timetable_of_isSequence hg.linked hseq
        (horder'.isSequence hg.linked) hown ht
      exact ⟨⟨g, o', t'⟩, compute_of_timetable ho' ht', htimings⟩

/-- The fork without the link that does not constrain timing. -/
def looseFork : Graph :=
  match ofRecords 1 forkMilestones (forkDependencies.take 2) with
  | .ok g => g
  | .error _ => { contractId := 1 }

/-- Without that link the gate goes first.  The fork has the same timings along this order. -/
theorem timetable_looseFork : fork.Built ∧ looseFork.Built ∧
    ∃ o t s, looseFork.workOrder = .ok o ∧ o.ids = [4, 2, 1, 3] ∧ fork.timetable o = .ok t ∧
      Schedule.compute fork = .ok s ∧ ∀ id, t.timing? id = s.timetable.timing? id := by
  have hfork := built_of_ofRecords ofRecords_fork
  have hloose : looseFork.Built :=
    built_of_ofRecords (show ofRecords 1 forkMilestones (forkDependencies.take 2) = .ok _ from rfl)
  have hacyclic : fork.Acyclic :=
    (exists_workOrder_iff hfork.linked).1 ⟨⟨1, [2, 4, 1, 3]⟩, by cbv⟩
  have horder : looseFork.workOrder = .ok ⟨1, [4, 2, 1, 3]⟩ := by cbv
  have hlt : ∀ b ∈ fork.nodes.ids, ∀ a ∈ fork.prerequisites b,
      [4, 2, 1, 3].idxOf a < [4, 2, 1, 3].idxOf b := by decide
  obtain ⟨t, ht⟩ : ∃ t, fork.timetable ⟨1, [4, 2, 1, 3]⟩ = .ok t := ⟨_, rfl⟩
  obtain ⟨-, htimings⟩ := (timetable_of_workOrder hfork hloose horder).2 fun a b hab =>
    hlt b (Table.contains_iff.1 (hfork.linked.contains_of_mem_prerequisites hab).2) a hab
  obtain ⟨s, hs, hsame⟩ := htimings t ht hacyclic
  exact ⟨hfork, hloose, _, t, s, horder, rfl, ht, hs, hsame⟩

/-! ## An order that does not respect the links -/

/-- Two milestones of the fork, of which one waits for the other. -/
def pair (dependent prerequisite : MilestoneId) : Graph :=
  match ofRecords 1 (forkMilestones.take 2) [⟨1, dependent, prerequisite, .prerequisite⟩] with
  | .ok g => g
  | .error _ => { contractId := 1 }

/-- Along the order of the pair that is turned around, the second milestone starts at zero,
although it waits for the first. -/
theorem timetable_turned_pair : (pair 2 1).Built ∧ (pair 1 2).Built ∧
    ∃ o t s, (pair 1 2).workOrder = .ok o ∧ (pair 2 1).timetable o = .ok t ∧
      Schedule.compute (pair 2 1) = .ok s ∧ t.earliestStart 2 = 0 ∧
        s.timetable.earliestStart 2 = 5 ∧ t.timing? 2 ≠ s.timetable.timing? 2 := by
  have hbuilt : (pair 2 1).Built := built_of_ofRecords
    (show ofRecords 1 (forkMilestones.take 2) [⟨1, 2, 1, .prerequisite⟩] = .ok _ from rfl)
  have hturned : (pair 1 2).Built := built_of_ofRecords
    (show ofRecords 1 (forkMilestones.take 2) [⟨1, 1, 2, .prerequisite⟩] = .ok _ from rfl)
  have horder : (pair 1 2).workOrder = .ok ⟨1, [2, 1]⟩ := by cbv
  obtain ⟨t, ht, hwrong⟩ : ∃ t, (pair 2 1).timetable ⟨1, [2, 1]⟩ = .ok t ∧
      t.earliestStart 2 = 0 := ⟨_, rfl, rfl⟩
  have hright : Schedule.compute (pair 2 1) = .ok ⟨pair 2 1, ⟨1, [1, 2]⟩,
      { contractId := 1
        timings := [⟨1, 5, 0, 5, 0, 5, 0, 0⟩, ⟨2, 3, 5, 8, 5, 8, 0, 0⟩]
        total := 8
        criticalPathDuration := 8
        slackTime := 0
        criticalChain := [1, 2] }⟩ := by cbv
  refine ⟨hbuilt, hturned, _, t, _, horder, ht, hright, hwrong, rfl, fun hsame => ?_⟩
  rw [Timetable.earliestStart, Timetable.offset, hsame] at hwrong
  exact absurd hwrong (by decide)

end Graph

end Milestones
