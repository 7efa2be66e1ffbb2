import Milestones.Proofs.Schedule.AnyOrder

/-!
# Schedules that leave the range of durations

The forward pass watches the range, and a finish beyond it is refused.  Once the forward pass is
through, every other offset lies between zero and the total, so it is in range without being
watched.  The sum of all slack is not: each slack is no longer than the total, but there may be
many of them.  It is the only thing that can go wrong in a computation after the forward pass.

## Main definitions

* `Graph.Earliest`: the entries of the forward pass along a sequence.
* `Graph.SlackOverflows`: the slack adds up to more than the longest duration.

## Main statements

* `Graph.Earliest.exists_backwardPass`: the backward pass stays in range.
* `Graph.exists_timed`: after the forward pass the equations have a solution.
* `Graph.compute_eq_fault_iff`: a computation stops exactly if the slack overflows.
* `Graph.compute_ne_fault_of_le`: contracts that are far from the range are safe.
-/

namespace Milestones

open Outcome

namespace Graph

/-! ## After the forward pass -/

/-- The entries of the forward pass along a sequence without negative durations. -/
structure Earliest (g : Graph) (early : List Early) : Prop where
  isSequence : g.IsSequence (early.map Early.id)
  zero_le_duration : ∀ e ∈ early, 0 ≤ e.duration.nanos
  followsFrom : ∀ e ∈ early, e.FollowsFrom g early

theorem earliest_of_forwardPass {g : Graph} {ids : List MilestoneId} (hids : g.IsSequence ids)
    (hneg : g.negative? ids = none) {early : List Early}
    (h : forwardPass g [] ids = .ok early) : early.map Early.id = ids ∧ g.Earliest early := by
  obtain ⟨hmap, hfollows⟩ := hids.followsFrom_early h
  refine ⟨hmap, hmap.symm ▸ hids, fun e he => ?_, hfollows⟩
  have hid : e.id ∈ ids := hmap ▸ List.mem_map_of_mem he
  have hnot := List.find?_eq_none.1 hneg e.id hid
  rw [(hfollows e he).duration_eq]
  simpa [Duration.lt_iff, Duration.zero] using hnot

namespace Earliest

variable {g : Graph} {early : List Early} (h : g.Earliest early)
include h

/-- The entry of a milestone is found under its identifier. -/
theorem find?_eq {e : Early} (he : e ∈ early) :
    (early.find? fun e' => e'.id == e.id) = some e :=
  (find?_key_eq_some_iff h.isSequence.nodup).2 ⟨he, rfl⟩

theorem exists_mem {m : MilestoneId} (hm : g.contains m = true) : ∃ e ∈ early, e.id = m :=
  List.mem_map.1 ((h.isSequence.mem_iff m).2 hm)

theorem finish_le_start {e e' : Early} (he : e ∈ early) (he' : e' ∈ early)
    (hpre : e.id ∈ g.prerequisites e'.id) : e.finish.nanos ≤ e'.start.nanos := by
  have hfinish : finishOf early e.id = e.finish := by
    rw [finishOf, h.find?_eq he]
    rfl
  rw [(h.followsFrom e' he').start_eq, ← hfinish]
  exact (Duration.maximum?_getD_map _ _ _).1 e.id hpre

theorem start_le_finish {e : Early} (he : e ∈ early) : e.start.nanos ≤ e.finish.nanos := by
  have hfinish := (h.followsFrom e he).finish_eq
  have hduration := h.zero_le_duration e he
  omega

theorem zero_le_start (hg : g.Linked) {e : Early} (he : e ∈ early) : 0 ≤ e.start.nanos := by
  have hid : g.contains e.id = true := (h.isSequence.mem_iff _).1 (List.mem_map_of_mem he)
  refine h.isSequence.forward_induction
    (P := fun m => ∀ e ∈ early, e.id = m → 0 ≤ e.start.nanos) (fun m hm ih e he hem => ?_) hid e
    he rfl
  subst hem
  rcases (Duration.maximum?_getD_map (g.prerequisites e.id) (finishOf early) .zero).2 with
    ⟨-, hzero⟩ | ⟨p, hp, -⟩
  · rw [(h.followsFrom e he).start_eq, hzero]
    exact Int.le_refl 0
  · obtain ⟨e', he', rfl⟩ := h.exists_mem (hg.contains_of_mem_prerequisites hp).1
    have hbefore := ih _ hp e' he' rfl
    have hlength := h.start_le_finish he'
    have hle := h.finish_le_start he' he hp
    omega

/-- A milestone can finish before anything else has to start, provided that this is so of what its
dependents have to keep to. -/
theorem finish_le_minimum (hg : g.Linked) {e : Early} (he : e ∈ early)
    {value : MilestoneId → Duration}
    (hvalue : ∀ e' ∈ early, e'.id ∈ g.dependents e.id → e'.start.nanos ≤ (value e'.id).nanos) :
    e.finish.nanos ≤
      ((Duration.minimum? ((g.dependents e.id).map value)).getD (totalDuration g early)).nanos := by
  rcases (Duration.minimum?_getD_map (g.dependents e.id) value (totalDuration g early)).2 with
    ⟨hsink, htotal⟩ | ⟨b, hb, hattained⟩
  · rw [htotal]
    refine (Duration.maximum?_getD_map _ _ _).1 e (List.mem_filter.2 ⟨he, ?_⟩)
    rw [hsink]
    rfl
  · obtain ⟨e', he', rfl⟩ := h.exists_mem (hg.contains_of_mem_dependents hb).2
    have hstart := h.finish_le_start he he' (hg.mem_dependents_iff_mem_prerequisites.1 hb)
    have hnext := hvalue e' he' hb
    rw [hattained]
    omega

/-- What has to start after it can, has its latest start among those known. -/
theorem start_le_latestStartOf {late : List Late} (hsub : late.map Late.early ⊆ early)
    (hlate : ∀ l ∈ late, l.early.finish.nanos ≤ l.finish.nanos ∧
      l.start.nanos = l.finish.nanos - l.early.duration.nanos)
    {e : Early} (he : e ∈ early) (hid : e.id ∈ late.map fun l => l.early.id) :
    e.start.nanos ≤ (latestStartOf late e.id).nanos := by
  obtain ⟨l, hfind⟩ := exists_find?_key hid
  obtain ⟨hl, hle⟩ := of_find?_key hfind
  have hmem : l.early ∈ early := hsub (List.mem_map_of_mem hl)
  have hsame : l.early = e := by
    have hfound := h.find?_eq hmem
    rw [show l.early.id = e.id from hle, h.find?_eq he] at hfound
    exact (Option.some.inj hfound).symm
  subst hsame
  rw [latestStartOf, hfind]
  obtain ⟨hfinish, hstart⟩ := hlate l hl
  have hlength := (h.followsFrom _ hmem).finish_eq
  simp only [Option.map_some, Option.getD_some]
  omega

/-- The backward pass stays in range.  It goes from the end of the order, and no milestone has to
finish before it can. -/
theorem exists_backwardPass (hg : g.Linked) :
    ∃ late, backwardPass g (totalDuration g early) early = some late ∧
      ∀ l ∈ late, l.early.finish.nanos ≤ l.finish.nanos ∧
        l.start.nanos = l.finish.nanos - l.early.duration.nanos := by
  have hsuffix : ∀ after before, early = before ++ after →
      ∃ late, backwardPass g (totalDuration g early) after = some late ∧
        ∀ l ∈ late, l.early.finish.nanos ≤ l.finish.nanos ∧
          l.start.nanos = l.finish.nanos - l.early.duration.nanos := by
    intro after
    induction after with
    | nil => exact fun _ _ => ⟨[], rfl, nofun⟩
    | cons e rest ih =>
      intro before hsplit
      obtain ⟨later, hlater, hbounds⟩ := ih (before ++ [e]) (by rw [hsplit, List.append_cons])
      obtain ⟨hmap, -⟩ := backwardPass_eq_some hlater
      have he : e ∈ early := by rw [hsplit]; simp
      have hsub : later.map Late.early ⊆ early := by
        rw [hmap, hsplit]
        exact fun x hx => List.mem_append_right _ (List.mem_cons_of_mem _ hx)
      have hplace : early.map Early.id = before.map Early.id ++ e.id :: rest.map Early.id := by
        rw [hsplit, List.map_append, List.map_cons]
      -- The dependents come later in the order, so their latest starts are known.
      have hfinish := h.finish_le_minimum hg he fun e' he' hdep => by
        refine h.start_le_latestStartOf hsub hbounds he' ?_
        have hafter := h.isSequence.mem_of_mem_dependents hg hplace hdep
        rwa [← hmap, List.map_map] at hafter
      generalize hlatest : (Duration.minimum? ((g.dependents e.id).map
        (latestStartOf later))).getD (totalDuration g early) = finish at hfinish
      have hstart := h.zero_le_start hg he
      have hlength := (h.followsFrom e he).finish_eq
      have hduration := h.zero_le_duration e he
      have hrange : (finish.nanos - e.duration.nanos).natAbs ≤ Duration.maxNanos := by
        have := finish.natAbs_le
        omega
      have hstep : finish.sub? e.duration = some ⟨_, hrange⟩ := Duration.sub?_eq_some_iff.2 rfl
      refine ⟨⟨e, ⟨_, hrange⟩, finish⟩ :: later, ?_, fun l hl => ?_⟩
      · simp only [backwardPass, hlater, bind, Option.bind, hlatest, hstep]
      · rcases List.mem_cons.1 hl with rfl | hl
        · exact ⟨hfinish, rfl⟩
        · exact hbounds l hl
  exact hsuffix early [] rfl

/-- Slack and free slack are in range. -/
theorem exists_timing? (hg : g.Linked) {l : Late} (he : l.early ∈ early)
    (hfinish : l.early.finish.nanos ≤ l.finish.nanos)
    (hstart : l.start.nanos = l.finish.nanos - l.early.duration.nanos) :
    ∃ x, l.timing? g early (totalDuration g early) = some x := by
  have hlength := (h.followsFrom _ he).finish_eq
  have hzero := h.zero_le_start hg he
  have hduration := h.zero_le_duration _ he
  have hfree := h.finish_le_minimum hg he fun e' he' _ => by
    have hstartOf : startOf early e'.id = e'.start := by
      rw [startOf, h.find?_eq he']
      rfl
    exact Int.le_of_eq (congrArg Duration.nanos hstartOf.symm)
  generalize hnext : (Duration.minimum? ((g.dependents l.early.id).map (startOf early))).getD
    (totalDuration g early) = next at hfree
  have hslackRange : (l.start.nanos - l.early.start.nanos).natAbs ≤ Duration.maxNanos := by
    have := l.finish.natAbs_le
    omega
  have hfreeRange : (next.nanos - l.early.finish.nanos).natAbs ≤ Duration.maxNanos := by
    have := next.natAbs_le
    omega
  have hslack : l.start.sub? l.early.start = some ⟨_, hslackRange⟩ :=
    Duration.sub?_eq_some_iff.2 rfl
  have hfreeSlack : next.sub? l.early.finish = some ⟨_, hfreeRange⟩ :=
    Duration.sub?_eq_some_iff.2 rfl
  exact ⟨⟨l.early.id, l.early.duration, l.early.start, l.early.finish, l.start, l.finish,
    ⟨_, hslackRange⟩, ⟨_, hfreeRange⟩⟩, by
      simp only [Late.timing?, hslack, hnext, hfreeSlack, bind, Option.bind]⟩

end Earliest

/-- After the forward pass along a sequence, the equations have a solution. -/
theorem exists_timed {g : Graph} (hg : g.Linked) {ids : List MilestoneId}
    (hids : g.IsSequence ids) (hneg : g.negative? ids = none) {early : List Early}
    (h : forwardPass g [] ids = .ok early) : ∃ t, g.Timed t ∧ t.ids = ids := by
  obtain ⟨-, hearly⟩ := earliest_of_forwardPass hids hneg h
  obtain ⟨late, hlate, hbounds⟩ := hearly.exists_backwardPass hg
  have hmem : ∀ l ∈ late, l.early ∈ early := fun l hl => by
    rw [← (backwardPass_eq_some hlate).1]
    exact List.mem_map_of_mem hl
  obtain ⟨timings, htimings⟩ := exists_mapM_eq_some fun l hl =>
    hearly.exists_timing? hg (hmem l hl) (hbounds l hl).1 (hbounds l hl).2
  let t : Timetable :=
    { contractId := g.contractId
      timings := timings
      total := totalDuration g early
      criticalPathDuration := .zero
      slackTime := .zero
      criticalChain := [] }
  obtain ⟨hown, hjoined⟩ := joined_of_passes (t := t) hg hids h hlate htimings
  exact ⟨t, hjoined.timed hg (hown.symm ▸ hneg) rfl, hown⟩

/-! ## The sum of all slack -/

/-- There are offsets in range for all milestones, but their slack adds up to more than the longest
duration. -/
def SlackOverflows (g : Graph) : Prop :=
  g.Acyclic ∧ ∃ t, g.Timed t ∧
    (Duration.maxNanos : Int) < (t.ids.map fun m => (t.slack m).nanos).sum

/-- Before it comes to the sum of the slack, a draft is at most refused. -/
theorem exists_forwardPass_of_draft_fault {g : Graph} {o : WorkOrder} {f : Fault}
    (h : g.draft o = .error (.fault f)) :
    (o.fits g = true ∧ g.negative? o.ids = none) ∧
      ∃ early, forwardPass g [] o.ids = .ok early := by
  rw [draft] at h
  rcases bind_eq_error.1 h with h | ⟨_, hcheck, h⟩
  · exact absurd h (g.check_ne_fault o f)
  rcases bind_eq_error.1 h with h | ⟨early, hearly, -⟩
  · obtain ⟨_, -, h⟩ := ofExcept_eq_error.1 h
    cases h
  · exact ⟨check_eq_ok hcheck, early, ofExcept_eq_ok.1 hearly⟩

theorem Timed.zero_le_sum_slack {g : Graph} (hg : g.Linked) {t : Timetable} (h : g.Timed t) :
    0 ≤ (t.ids.map fun m => (t.slack m).nanos).sum := by
  refine List.sum_nonneg fun n hn => ?_
  obtain ⟨m, hm, rfl⟩ := List.mem_map.1 hn
  exact h.zero_le_slack hg ((h.isSequence.mem_iff m).1 hm)

/-- A draft along a sequence stops exactly if the slack is too much. -/
theorem Timed.draft_eq_fault_iff {g : Graph} (hg : g.Linked) {t : Timetable} (h : g.Timed t)
    {o : WorkOrder} (ho : g.IsSequence o.ids) (hcontract : o.contractId = g.contractId)
    {f : Fault} :
    g.draft o = .error (.fault f) ↔ f = .durationRange ∧
      (Duration.maxNanos : Int) < (t.ids.map fun m => (t.slack m).nanos).sum := by
  have hsum : Duration.ofNanos? (t.ids.map fun m => (t.slack m).nanos).sum = none ↔
      (Duration.maxNanos : Int) < (t.ids.map fun m => (t.slack m).nanos).sum := by
    have hzero := h.zero_le_sum_slack hg
    rw [Duration.ofNanos?_eq_none_iff]
    omega
  rw [h.draft_eq hg ho hcontract, ← hsum]
  cases Duration.ofNanos? (t.ids.map fun m => (t.slack m).nanos).sum with
  | none => simp [orFault, Except.map, eq_comm]
  | some _ => simp [orFault, Except.map]

/-- A computation stops exactly if the slack overflows. -/
theorem compute_eq_fault_iff {g : Graph} (hg : g.Linked) {f : Fault} :
    Schedule.compute g = .error (.fault f) ↔ f = .durationRange ∧ g.SlackOverflows := by
  constructor
  · intro h
    cases ho : g.workOrder with
    | error r =>
      rw [Schedule.compute, ho] at h
      cases h
    | ok o =>
      have hseq := isSequence_of_workOrder hg ho
      obtain ⟨hcontract, -⟩ := isWorkOrder_of_workOrder hg ho
      rw [compute_of_workOrder ho, map_eq_error, timetable_eq] at h
      rcases bind_eq_error.1 h with h | ⟨t, ht, h⟩
      · obtain ⟨⟨-, hneg⟩, early, hearly⟩ := exists_forwardPass_of_draft_fault h
        obtain ⟨t, ht, -⟩ := exists_timed hg hseq hneg hearly
        obtain ⟨hf, hsum⟩ := (ht.draft_eq_fault_iff hg hseq hcontract).1 h
        exact ⟨hf, (exists_workOrder_iff hg).1 ⟨o, ho⟩, t, ht, hsum⟩
      · -- A draft can always be traced.
        obtain ⟨t', ht'⟩ := (timed_of_draft hg hseq ht).exists_traced hg
        cases h.symm.trans ht'
  · rintro ⟨hf, hacyclic, t, ht, hsum⟩
    obtain ⟨o, ho⟩ := (exists_workOrder_iff hg).2 hacyclic
    obtain ⟨hcontract, -⟩ := isWorkOrder_of_workOrder hg ho
    have hdraft := (ht.draft_eq_fault_iff hg (isSequence_of_workOrder hg ho) hcontract).2 ⟨hf, hsum⟩
    rw [compute_of_workOrder ho, map_eq_error, timetable_eq]
    exact bind_eq_error.2 (.inl hdraft)

/-! ## Room for the slack -/

/-- No milestone has to wait for longer than all milestones before it take together. -/
theorem Timed.earliestFinish_le_sum {g : Graph} {t : Timetable} (h : g.Timed t)
    {m : MilestoneId} (hm : g.contains m = true) :
    (t.earliestFinish m).nanos ≤ (t.ids.map fun m => (g.duration m).nanos).sum := by
  have hprefix : ∀ before after, t.ids = before ++ after →
      0 ≤ (before.map fun m => (g.duration m).nanos).sum ∧
        ∀ x ∈ before, (t.earliestFinish x).nanos ≤
          (before.map fun m => (g.duration m).nanos).sum := by
    intro before
    induction before using List.reverseRecOn with
    | nil => exact fun _ _ => ⟨Int.le_refl 0, nofun⟩
    | append_singleton before x ih =>
      intro after hids
      rw [List.append_assoc, List.singleton_append] at hids
      obtain ⟨hsum, hbefore⟩ := ih _ hids
      have hx : g.contains x = true := (h.isSequence.mem_iff x).1 (by rw [hids]; simp)
      have hduration := h.zero_le_duration hx
      rw [List.map_append, List.map_singleton, List.sum_append, List.sum_singleton]
      refine ⟨Int.add_nonneg hsum hduration, fun y hy => ?_⟩
      rcases List.mem_append.1 hy with hy | hy
      · exact (hbefore y hy).trans (Int.le_add_of_nonneg_right hduration)
      · cases List.mem_singleton.1 hy
        rw [h.earliestFinish_eq hx]
        refine Int.add_le_add_right ?_ _
        rcases h.earliestStart_attained hx with ⟨-, hzero⟩ | ⟨p, hp, hstart⟩
        · rw [hzero]
          exact hsum
        · rw [hstart]
          exact hbefore p (h.isSequence.mem_of_mem_prerequisites before x after hids p hp)
  obtain ⟨-, hall⟩ := hprefix t.ids [] (by simp)
  exact hall m ((h.isSequence.mem_iff m).2 hm)

/-- Where all milestones together, as many times as there are milestones, stay in range, a
computation does not stop. -/
theorem compute_ne_fault_of_le {g : Graph} (hg : g.Linked)
    (hroom : g.size * (g.nodes.ids.map fun m => (g.duration m).nanos).sum ≤ Duration.maxNanos)
    (f : Fault) : Schedule.compute g ≠ .error (.fault f) := by
  intro hfault
  obtain ⟨-, -, t, ht, hsum⟩ := (compute_eq_fault_iff hg).1 hfault
  have hperm : t.ids.Perm g.nodes.ids := by
    refine (List.perm_ext_iff_of_nodup ht.isSequence.nodup g.nodes.nodup_ids).2 fun m => ?_
    rw [ht.isSequence.mem_iff]
    exact Table.contains_iff
  have hsize : t.ids.length = g.size := by
    rw [hperm.length_eq, Table.ids, List.length_map]
    rfl
  have hslack : ∀ n ∈ t.ids.map fun m => (t.slack m).nanos,
      n ≤ (g.nodes.ids.map fun m => (g.duration m).nanos).sum := by
    intro n hn
    obtain ⟨m, hm, rfl⟩ := List.mem_map.1 hn
    have hin := (ht.isSequence.mem_iff m).1 hm
    have hstart := ht.zero_le_earliestStart hg hin
    have hduration := ht.zero_le_duration hin
    have hfinish := ht.earliestFinish_eq hin
    have hlatest := ht.latestFinish_le_total hg hin
    have heq := ht.slack_eq_finish hin
    rw [← (hperm.map _).sum_eq]
    rcases ht.exists_sink hg with ⟨hids, -⟩ | ⟨last, hlast, -, htotal⟩
    · rw [hids] at hm
      cases hm
    · have hle := ht.earliestFinish_le_sum hlast
      rw [htotal] at hle
      omega
  have hle := List.sum_le_card_nsmul _ _ hslack
  rw [List.length_map, hsize, nsmul_eq_mul] at hle
  exact absurd (hsum.trans_le (hle.trans hroom)) (lt_irrefl _)

end Graph

end Milestones
