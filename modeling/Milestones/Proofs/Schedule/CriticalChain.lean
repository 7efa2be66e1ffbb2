import Milestones.Proofs.Schedule.Timetable

/-!
# The critical chain spans the schedule

A critical milestone that has prerequisites has a critical one among them, which finishes just
when it starts; and one that has dependents has a critical one among these.  So a walk over
critical milestones comes to a stop at the ends of the schedule only, whichever of several equal
prerequisites it takes.  A walk back from the end is a critical chain, and its durations add up to
the total because each milestone starts when the one before finishes.

## Main definitions

* `Graph.Tight`: one milestone finishes just when another one that waits for it starts.
* `Graph.IsCriticalRun`: critical milestones in a row.
* `Graph.IsCriticalPath`: critical milestones in a row, from the start of the schedule to its end.

## Main statements

* `Graph.Timed.exists_critical_prerequisite`, `Graph.Timed.exists_critical_dependent`: a walk over
  critical milestones never gets stuck.
* `Graph.Timed.walkBack_eq_some`: the walk back reaches the start of the schedule.
* `Graph.compute_criticalChain`: the chain of a schedule is a critical path, and every critical
  milestone is on one.
-/

namespace Milestones

open Outcome

namespace Graph

/-! ## Critical paths -/

/-- The second milestone waits for the first and can start when it finishes, not before. -/
def Tight (g : Graph) (t : Timetable) (a b : MilestoneId) : Prop :=
  a ∈ g.prerequisites b ∧ t.earliestFinish a = t.earliestStart b

/-- Critical milestones, each starting when the one before finishes. -/
structure IsCriticalRun (g : Graph) (t : Timetable) (ids : List MilestoneId) : Prop where
  isCritical : ∀ m ∈ ids, t.isCritical m = true
  isChain : ids.IsChain (g.Tight t)

/-- The milestone waits for nothing and starts with the schedule. -/
def IsStart (g : Graph) (t : Timetable) (m : MilestoneId) : Prop :=
  g.prerequisites m = [] ∧ t.earliestStart m = .zero

/-- The milestone holds up nothing and finishes with the schedule. -/
def IsEnd (g : Graph) (t : Timetable) (m : MilestoneId) : Prop :=
  g.dependents m = [] ∧ t.earliestFinish m = t.total

/-- Critical milestones from the start of the schedule to its end, as long as the schedule. -/
structure IsCriticalPath (g : Graph) (t : Timetable) (ids : List MilestoneId) : Prop
    extends g.IsCriticalRun t ids where
  ne_nil : ids ≠ []
  isStart : ∀ m ∈ ids.head?, g.IsStart t m
  isEnd : ∀ m ∈ ids.getLast?, g.IsEnd t m
  sum_eq : (ids.map fun m => (g.duration m).nanos).sum = t.total.nanos

theorem IsCriticalRun.append_singleton {g : Graph} {t : Timetable} {ids : List MilestoneId}
    {p m : MilestoneId} (h : g.IsCriticalRun t (ids ++ [p])) (hpm : g.Tight t p m)
    (hm : t.isCritical m = true) : g.IsCriticalRun t (ids ++ [p] ++ [m]) := by
  constructor
  · intro x hx
    rcases List.mem_append.1 hx with hx | hx
    · exact h.isCritical x hx
    · cases List.mem_singleton.1 hx
      exact hm
  · refine h.isChain.append (List.isChain_singleton m) fun x hx y hy => ?_
    rw [List.getLast?_concat] at hx
    cases hx
    cases hy
    exact hpm

theorem IsCriticalRun.cons {g : Graph} {t : Timetable} {ids : List MilestoneId}
    {m b : MilestoneId} (h : g.IsCriticalRun t (b :: ids)) (hmb : g.Tight t m b)
    (hm : t.isCritical m = true) : g.IsCriticalRun t (m :: b :: ids) := by
  constructor
  · intro x hx
    rcases List.mem_cons.1 hx with rfl | hx
    · exact hm
    · exact h.isCritical x hx
  · exact h.isChain.cons_cons hmb

theorem isCriticalRun_singleton {g : Graph} {t : Timetable} {m : MilestoneId}
    (hm : t.isCritical m = true) : g.IsCriticalRun t [m] := by
  constructor
  · intro x hx
    cases List.mem_singleton.1 hx
    exact hm
  · exact List.isChain_singleton m

/-- Runs that meet in a milestone make one run. -/
theorem IsCriticalRun.append {g : Graph} {t : Timetable} {before after : List MilestoneId}
    {m : MilestoneId} (h : g.IsCriticalRun t (before ++ [m]))
    (h' : g.IsCriticalRun t (m :: after)) : g.IsCriticalRun t (before ++ m :: after) := by
  constructor
  · intro x hx
    rcases List.mem_append.1 hx with hx | hx
    · exact h.isCritical x (List.mem_append_left _ hx)
    · exact h'.isCritical x hx
  · exact List.isChain_split.2 ⟨h.isChain, h'.isChain⟩

namespace Timed

variable {g : Graph} {t : Timetable} (h : g.Timed t)
include h

/-! ## Critical milestones -/

theorem isCritical_iff {m : MilestoneId} :
    t.isCritical m = true ↔ g.contains m = true ∧ t.slack m = .zero := by
  rw [← h.isSequence.mem_iff]
  constructor
  · intro hm
    obtain ⟨x, hx, hcritical⟩ := (Option.any_eq_true _ _).1 hm
    refine ⟨?_, ?_⟩
    · obtain ⟨hmem, rfl⟩ := (Timetable.timing?_eq_some_iff h.isSequence.nodup).1 hx
      exact List.mem_map_of_mem hmem
    · rw [Timetable.slack, Timetable.offset_eq hx]
      exact eq_of_beq hcritical
  · rintro ⟨hm, hslack⟩
    obtain ⟨x, hx⟩ := Timetable.exists_timing? hm
    rw [Timetable.slack, Timetable.offset_eq hx] at hslack
    exact (Option.any_eq_true _ _).2 ⟨x, hx, beq_iff_eq.2 hslack⟩

/-- A milestone is critical if it has to finish when it can. -/
theorem isCritical_of_finish {m : MilestoneId} (hm : g.contains m = true)
    (heq : (t.latestFinish m).nanos = (t.earliestFinish m).nanos) : t.isCritical m = true := by
  refine h.isCritical_iff.2 ⟨hm, Duration.ext ?_⟩
  have hslack := h.slack_eq_finish hm
  simp only [Duration.zero]
  omega

theorem latestFinish_of_isCritical {m : MilestoneId} (hm : t.isCritical m = true) :
    (t.latestFinish m).nanos = (t.earliestFinish m).nanos := by
  obtain ⟨hin, hzero⟩ := h.isCritical_iff.1 hm
  have hslack := h.slack_eq_finish hin
  simp only [hzero, Duration.zero] at hslack
  omega

/-- The timing of a milestone tells whether the milestone is critical. -/
theorem isCritical_milestoneId {x : Timing} (hx : x ∈ t.timings) :
    t.isCritical x.milestoneId = x.isCritical := by
  rw [Timetable.isCritical, (Timetable.timing?_eq_some_iff h.isSequence.nodup).2 ⟨hx, rfl⟩]
  rfl

/-- Among the timings, a step back is told by what it compares. -/
theorem tight_iff_timing {x y : Timing} (hx : x ∈ t.timings) (hy : y ∈ t.timings) :
    ((g.prerequisites x.milestoneId).contains y.milestoneId && y.isCritical &&
        y.earliestFinish == x.earliestStart) = true ↔
      t.isCritical y.milestoneId = true ∧ g.Tight t y.milestoneId x.milestoneId := by
  have hxtiming := (Timetable.timing?_eq_some_iff h.isSequence.nodup).2 ⟨hx, rfl⟩
  have hytiming := (Timetable.timing?_eq_some_iff h.isSequence.nodup).2 ⟨hy, rfl⟩
  rw [h.isCritical_milestoneId hy, Tight, Timetable.earliestFinish, Timetable.earliestStart,
    Timetable.offset_eq hxtiming, Timetable.offset_eq hytiming]
  simp only [Bool.and_eq_true, List.contains_iff_mem, beq_iff_eq]
  constructor
  · rintro ⟨⟨hpre, hcritical⟩, hfinish⟩
    exact ⟨hcritical, hpre, hfinish⟩
  · rintro ⟨hcritical, hpre, hfinish⟩
    exact ⟨⟨hpre, hcritical⟩, hfinish⟩

/-- The critical milestones are those of the timings. -/
theorem exists_timing_of_isCritical {m : MilestoneId} (hm : t.isCritical m = true) :
    ∃ x ∈ t.timings, x.milestoneId = m := by
  have hin := (h.isSequence.mem_iff m).2 (h.isCritical_iff.1 hm).1
  exact List.mem_map.1 hin

/-- Among the timings, an end of the schedule is told by what the search compares. -/
theorem isEnd_iff_timing {x : Timing} (hx : x ∈ t.timings) :
    (x.isCritical && x.earliestFinish == t.total && (g.dependents x.milestoneId).isEmpty) = true ↔
      t.isCritical x.milestoneId = true ∧ g.IsEnd t x.milestoneId := by
  have hxtiming := (Timetable.timing?_eq_some_iff h.isSequence.nodup).2 ⟨hx, rfl⟩
  rw [h.isCritical_milestoneId hx, IsEnd, Timetable.earliestFinish, Timetable.offset_eq hxtiming]
  simp only [Bool.and_eq_true, beq_iff_eq, List.isEmpty_iff]
  constructor
  · rintro ⟨⟨hcritical, hfinish⟩, hsink⟩
    exact ⟨hcritical, hsink, hfinish⟩
  · rintro ⟨hcritical, hsink, hfinish⟩
    exact ⟨⟨hcritical, hfinish⟩, hsink⟩

/-! ## Length -/

/-- Along a run, every start but the first is a finish, so the durations add up. -/
theorem earliestFinish_eq_sum {m : MilestoneId} {ids : List MilestoneId}
    (hrun : g.IsCriticalRun t (m :: ids)) :
    ∀ x ∈ (m :: ids).getLast?, (t.earliestFinish x).nanos =
      (t.earliestStart m).nanos + ((m :: ids).map fun m => (g.duration m).nanos).sum := by
  induction ids generalizing m with
  | nil =>
    intro x hx
    cases hx
    have hin := (h.isCritical_iff.1 (hrun.isCritical _ List.mem_cons_self)).1
    simpa using h.earliestFinish_eq hin
  | cons b rest ih =>
    intro x hx
    rw [List.getLast?_cons_cons] at hx
    obtain ⟨hmb, hchain⟩ := List.isChain_cons_cons.1 hrun.isChain
    have hrest : g.IsCriticalRun t (b :: rest) :=
      ⟨fun y hy => hrun.isCritical y (List.mem_cons_of_mem m hy), hchain⟩
    have hlater := ih hrest x hx
    have hin := (h.isCritical_iff.1 (hrun.isCritical m List.mem_cons_self)).1
    have hfinish := h.earliestFinish_eq hin
    rw [hmb.2] at hfinish
    rw [List.map_cons, List.sum_cons]
    omega

/-- A run from the start of the schedule to its end is as long as the schedule. -/
theorem isCriticalPath_of_run {before after : List MilestoneId} {m : MilestoneId}
    (hbefore : g.IsCriticalRun t (before ++ [m]))
    (hstart : ∀ x ∈ (before ++ [m]).head?, g.IsStart t x)
    (hafter : g.IsCriticalRun t (m :: after))
    (hend : ∀ x ∈ (m :: after).getLast?, g.IsEnd t x) :
    g.IsCriticalPath t (before ++ m :: after) := by
  have hrun := hbefore.append hafter
  have hstart' : ∀ x ∈ (before ++ m :: after).head?, g.IsStart t x := by
    intro x hx
    refine hstart x ?_
    rw [List.head?_append] at hx ⊢
    exact hx
  have hend' : ∀ x ∈ (before ++ m :: after).getLast?, g.IsEnd t x := by
    intro x hx
    refine hend x ?_
    rwa [List.getLast?_append_of_ne_nil _ (List.cons_ne_nil m after)] at hx
  refine ⟨hrun, by simp, hstart', hend', ?_⟩
  cases hids : before ++ m :: after with
  | nil => simp at hids
  | cons first rest =>
    rw [hids] at hrun hstart' hend'
    have hlast := List.getLast?_eq_some_getLast (List.cons_ne_nil first rest)
    have hsum := h.earliestFinish_eq_sum hrun _ hlast
    rw [(hend' _ hlast).2, (hstart' first rfl).2] at hsum
    simp only [Duration.zero] at hsum
    omega

/-- The length of a critical path is summed without leaving the range. -/
theorem sumDurations_eq_total {ids : List MilestoneId} (hpath : g.IsCriticalPath t ids) :
    sumDurations (ids.filterMap fun id => (t.timing? id).map Timing.duration) =
      some t.total := by
  have hin : ∀ m ∈ ids, g.contains m = true := fun m hm =>
    (h.isCritical_iff.1 (hpath.isCritical m hm)).1
  have hdurations : (ids.filterMap fun id => (t.timing? id).map Timing.duration) =
      ids.map g.duration := by
    rw [← List.filterMap_eq_map]
    refine List.filterMap_congr fun m hm => ?_
    obtain ⟨x, hx⟩ := Timetable.exists_timing? ((h.isSequence.mem_iff m).2 (hin m hm))
    rw [Function.comp_apply, ← h.duration_eq (hin m hm), Timetable.offset_eq hx, hx]
    rfl
  rw [hdurations]
  refine Duration.foldlM_add?_eq_some (fun d hd => ?_) (Int.le_refl 0) ?_
  · obtain ⟨m, hm, rfl⟩ := List.mem_map.1 hd
    exact h.zero_le_duration (hin m hm)
  · rw [List.map_map, ← hpath.sum_eq]
    exact Int.zero_add _

variable (hg : g.Linked)
include hg

/-! ## Neighbours on the path -/

/-- A critical milestone starts with the schedule or with the finish of a critical
prerequisite. -/
theorem exists_critical_prerequisite {m : MilestoneId} (hm : t.isCritical m = true) :
    g.IsStart t m ∨ ∃ p, t.isCritical p = true ∧ g.Tight t p m := by
  have hin := (h.isCritical_iff.1 hm).1
  rcases h.earliestStart_attained hin with hstart | ⟨p, hp, hstart⟩
  · exact .inl hstart
  · have hpin := (hg.contains_of_mem_prerequisites hp).1
    have hfinish := h.latestFinish_of_isCritical hm
    have hlatest := h.latestStart_eq hin
    have hearliest := h.earliestFinish_eq hin
    have hle := h.earliestFinish_le_latestFinish hg hpin
    have hbefore := h.latestFinish_le_latestStart hg hp
    refine .inr ⟨p, h.isCritical_of_finish hpin ?_, hp, hstart.symm⟩
    rw [hstart] at hearliest
    omega

/-- A critical milestone finishes with the schedule or with the start of a critical
dependent. -/
theorem exists_critical_dependent {m : MilestoneId} (hm : t.isCritical m = true) :
    g.IsEnd t m ∨ ∃ b, t.isCritical b = true ∧ g.Tight t m b := by
  have hin := (h.isCritical_iff.1 hm).1
  have hfinish := h.latestFinish_of_isCritical hm
  rcases h.latestFinish_attained hin with ⟨hsink, htotal⟩ | ⟨b, hb, hlatest⟩
  · refine .inl ⟨hsink, Duration.ext ?_⟩
    rw [← htotal]
    exact hfinish.symm
  · have hbin := (hg.contains_of_mem_dependents hb).2
    have hmb := hg.mem_dependents_iff_mem_prerequisites.1 hb
    have hafter := h.earliestFinish_le_earliestStart hg hmb
    have hroom := h.zero_le_slack hg hbin
    have hslack := h.slack_eq hbin
    rw [hlatest] at hfinish
    refine .inr ⟨b, h.isCritical_iff.2 ⟨hbin, Duration.ext ?_⟩, hmb, Duration.ext ?_⟩
    · simp only [Duration.zero]
      omega
    · omega

/-! ## Walking -/

/-- The walk back from a critical milestone is a run from the start of the schedule.  Each step
goes to an earlier place in the order of work, so there are enough of them. -/
theorem walkBack_eq_some {steps : Nat} {x : Timing} (hx : x ∈ t.timings)
    (hcritical : t.isCritical x.milestoneId = true) {front back : List MilestoneId}
    (hids : t.ids = front ++ x.milestoneId :: back) (hsteps : front.length < steps) :
    ∃ before, walkBack g t.timings steps x = some (before ++ [x.milestoneId]).reverse ∧
      g.IsCriticalRun t (before ++ [x.milestoneId]) ∧
        ∀ m ∈ (before ++ [x.milestoneId]).head?, g.IsStart t m := by
  induction steps generalizing x front back with
  | zero => omega
  | succ steps ih =>
    simp only [walkBack]
    split
    · rename_i hnone
      refine ⟨[], rfl, isCriticalRun_singleton hcritical, fun m hm => ?_⟩
      cases hm
      rcases h.exists_critical_prerequisite hg hcritical with hstart | ⟨p, hp, htight⟩
      · exact hstart
      · -- The walk would have gone on to this prerequisite.
        obtain ⟨y, hy, rfl⟩ := h.exists_timing_of_isCritical hp
        exact absurd ((h.tight_iff_timing hx hy).2 ⟨hp, htight⟩)
          (List.find?_eq_none.1 hnone y hy)
    · rename_i y hfind
      have hy := List.mem_of_find?_eq_some hfind
      have hstep := List.find?_some hfind
      obtain ⟨hycritical, htight⟩ := (h.tight_iff_timing hx hy).1 hstep
      obtain ⟨front', back', hfront⟩ := List.append_of_mem
        (h.isSequence.mem_of_mem_prerequisites front _ back hids y.milestoneId htight.1)
      have hids' : t.ids = front' ++ y.milestoneId :: (back' ++ x.milestoneId :: back) := by
        rw [hids, hfront, List.append_assoc, List.cons_append]
      have hshorter : front'.length < steps := by
        rw [hfront, List.length_append, List.length_cons] at hsteps
        omega
      obtain ⟨before, hwalk, hrun, hhead⟩ := ih hy hycritical hids' hshorter
      refine ⟨before ++ [y.milestoneId], ?_, hrun.append_singleton htight hcritical, ?_⟩
      · rw [hwalk, List.reverse_concat]
        simp
      · intro m hm
        refine hhead m ?_
        rw [List.head?_append] at hm
        simpa using hm

/-- From a critical milestone, a run goes on to the end of the schedule. -/
theorem exists_run_to_end {m : MilestoneId} (hm : t.isCritical m = true) :
    ∃ after, g.IsCriticalRun t (m :: after) ∧ ∀ x ∈ (m :: after).getLast?, g.IsEnd t x := by
  refine h.isSequence.backward_induction hg
    (P := fun m => t.isCritical m = true → ∃ after, g.IsCriticalRun t (m :: after) ∧
      ∀ x ∈ (m :: after).getLast?, g.IsEnd t x)
    (fun m hin ih hm => ?_) (h.isCritical_iff.1 hm).1 hm
  rcases h.exists_critical_dependent hg hm with hend | ⟨b, hb, htight⟩
  · refine ⟨[], isCriticalRun_singleton hm, fun x hx => ?_⟩
    cases hx
    exact hend
  · have hdependent := hg.mem_dependents_iff_mem_prerequisites.2 htight.1
    obtain ⟨after, hrun, hlast⟩ := ih b hdependent hb
    refine ⟨b :: after, hrun.cons htight hm, fun x hx => hlast x ?_⟩
    rwa [List.getLast?_cons_cons] at hx

/-- Every critical milestone is on a critical path. -/
theorem exists_isCriticalPath {m : MilestoneId} (hm : t.isCritical m = true) :
    ∃ ids, g.IsCriticalPath t ids ∧ m ∈ ids := by
  obtain ⟨x, hx, rfl⟩ := h.exists_timing_of_isCritical hm
  obtain ⟨front, back, hids⟩ := List.append_of_mem
    ((h.isSequence.mem_iff _).2 (h.isCritical_iff.1 hm).1)
  obtain ⟨before, -, hrun, hstart⟩ := h.walkBack_eq_some hg hx hm hids (Nat.lt_succ_self _)
  obtain ⟨after, hrun', hend⟩ := h.exists_run_to_end hg hm
  exact ⟨_, h.isCriticalPath_of_run hrun hstart hrun' hend, by simp⟩

/-! ## The chain of a schedule -/

/-- Unless the graph is empty, some critical milestone finishes with the schedule. -/
theorem exists_critical_end (hne : t.ids ≠ []) :
    ∃ m, t.isCritical m = true ∧ g.IsEnd t m := by
  rcases h.exists_sink hg with ⟨hnil, -⟩ | ⟨m, hin, hsink, htotal⟩
  · exact absurd hnil hne
  · have hfinish : t.latestFinish m = t.total := by
      rw [h.latestFinish_eq hin, hsink]
      rfl
    exact ⟨m, h.isCritical_of_finish hin (by rw [hfinish, htotal]), hsink, htotal⟩

/-- The traced chain is a critical path. -/
theorem criticalChain?_eq_some (hne : t.ids ≠ []) :
    ∃ ids, criticalChain? g t.timings t.total = some ids ∧ g.IsCriticalPath t ids := by
  rw [criticalChain?]
  split
  · rename_i hnone
    obtain ⟨m, hm, hend⟩ := h.exists_critical_end hg hne
    obtain ⟨x, hx, rfl⟩ := h.exists_timing_of_isCritical hm
    exact absurd ((h.isEnd_iff_timing hx).2 ⟨hm, hend⟩) (List.find?_eq_none.1 hnone x hx)
  · rename_i x hfind
    have hx := List.mem_of_find?_eq_some hfind
    have hlast := List.find?_some hfind
    obtain ⟨hcritical, hend⟩ := (h.isEnd_iff_timing hx).1 hlast
    have hin : x.milestoneId ∈ t.ids := List.mem_map_of_mem hx
    obtain ⟨front, back, hids⟩ := List.append_of_mem hin
    have hsteps : front.length < t.timings.length := by
      have hlength := congrArg List.length hids
      rw [Timetable.ids, List.length_map, List.length_append, List.length_cons] at hlength
      omega
    obtain ⟨before, hwalk, hrun, hstart⟩ := h.walkBack_eq_some hg hx hcritical hids hsteps
    refine ⟨before ++ [x.milestoneId], ?_, ?_⟩
    · rw [hwalk, Option.map_some, List.reverse_reverse]
    · refine h.isCriticalPath_of_run hrun hstart (isCriticalRun_singleton hcritical) ?_
      intro m hm
      cases hm
      exact hend

/-- Tracing succeeds, and its chain is as long as the schedule. -/
theorem exists_traced : ∃ t', t.traced g = .ok t' := by
  have htraced : ∀ chain, criticalChain? g t.timings t.total = some chain →
      sumDurations (chain.filterMap fun id => (t.timing? id).map Timing.duration) =
        some t.total → ∃ t', t.traced g = .ok t' := by
    intro chain hchain hlength
    refine ⟨{ t with criticalPathDuration := t.total, criticalChain := chain }, ?_⟩
    refine bind_eq_ok.2 ⟨chain, orFault_eq_ok.2 hchain, ?_⟩
    refine bind_eq_ok.2 ⟨t.total, orFault_eq_ok.2 hlength, ?_⟩
    rw [if_pos rfl]
    rfl
  by_cases hne : t.ids = []
  · have htimings : t.timings = [] := List.map_eq_nil_iff.1 hne
    have htotal : t.total = .zero := by
      rw [h.total_eq, hne]
      rfl
    refine htraced [] ?_ ?_
    · rw [htimings]
      rfl
    · rw [htotal]
      rfl
  · obtain ⟨chain, hchain, hpath⟩ := h.criticalChain?_eq_some hg hne
    exact htraced chain hchain (h.sumDurations_eq_total hpath)

end Timed

/-- The only fault along a sequence is a duration out of range. -/
theorem timetable_eq_fault {g : Graph} (hg : g.Linked) {o : WorkOrder} (ho : g.IsSequence o.ids)
    {f : Fault} (h : g.timetable o = .error (.fault f)) : f = .durationRange := by
  rw [timetable_eq] at h
  rcases bind_eq_error.1 h with h | ⟨t, ht, h⟩
  · exact draft_eq_fault h
  · obtain ⟨t', ht'⟩ := (timed_of_draft hg ho ht).exists_traced hg
    cases h.symm.trans ht'

/-- Only a duration out of range stops a computation. -/
theorem compute_eq_fault {g : Graph} (hg : g.Linked) {f : Fault}
    (h : Schedule.compute g = .error (.fault f)) : f = .durationRange := by
  cases ho : g.workOrder with
  | error r =>
    rw [Schedule.compute, ho] at h
    cases h
  | ok o =>
    rw [compute_of_workOrder ho, map_eq_error] at h
    exact timetable_eq_fault hg (isSequence_of_workOrder hg ho) h

/-- A computation neither goes round in circles nor ends with a chain of the wrong length.  The
chain of a schedule of at least one milestone is a critical path, the lengths agree, and every
critical milestone is on a critical path. -/
theorem compute_criticalChain {g : Graph} (hg : g.Built) :
    Schedule.compute g ≠ .error (.fault .chainLength) ∧
      Schedule.compute g ≠ .error (.fault .endlessChain) ∧
      ∀ s, Schedule.compute g = .ok s → 0 < g.size →
        g.IsCriticalPath s.timetable s.timetable.criticalChain ∧
          s.timetable.criticalPathDuration = s.timetable.total ∧
          ∀ m, s.timetable.isCritical m = true →
            ∃ ids, g.IsCriticalPath s.timetable ids ∧ m ∈ ids := by
  have hfault : ∀ f, Schedule.compute g = .error (.fault f) → f = .durationRange :=
    fun f hf => compute_eq_fault hg.linked hf
  refine ⟨fun h => ?_, fun h => ?_, fun s hs hsize => ?_⟩
  · cases hfault _ h
  · cases hfault _ h
  · have ht := timed_of_compute hg.linked hs
    obtain ⟨hchain, hlength⟩ := chain_of_compute hs
    have hne : s.timetable.ids ≠ [] := by
      obtain ⟨m, hm⟩ := exists_contains hsize
      exact List.ne_nil_of_mem ((ht.isSequence.mem_iff m).2 hm)
    obtain ⟨ids, hids, hpath⟩ := ht.criticalChain?_eq_some hg.linked hne
    cases hchain.symm.trans hids
    exact ⟨hpath, hlength, fun m hm => ht.exists_isCriticalPath hg.linked hm⟩

/-- The longer branch of the fork is its critical chain, and the gate is not on it. -/
theorem criticalChain_fork : fork.Built ∧ 0 < fork.size ∧
    ∃ s, Schedule.compute fork = .ok s ∧ fork.IsCriticalPath s.timetable [1, 3] := by
  obtain ⟨s, hs, htimetable⟩ := compute_fork
  have hbuilt := built_of_ofRecords ofRecords_fork
  have hsize : 0 < fork.size := by decide
  have hpath := ((compute_criticalChain hbuilt).2.2 s hs hsize).1
  rw [show s.timetable.criticalChain = [1, 3] by rw [htimetable]; rfl] at hpath
  exact ⟨hbuilt, hsize, s, hs, hpath⟩

end Graph

end Milestones
