import Milestones.Proofs.Schedule.Slack

/-!
# A milestone takes longer

A milestone that takes longer than planned uses up its slack.  The part of the delay that exceeds
the slack moves the end of the contract, and no other part does.  So a delay of a critical
milestone moves the end by all of it.

Neither pass computes this.  It is found by turning the schedule of one graph into a plan for the
other one.  The earliest starts with the delay are a plan without it, and in this plan the milestone
may even start later by the delay.  For the other direction, what comes before the milestone starts
as early as it can, and what comes after it as late as it has to, moved by the excess.

## Main definitions

* `Graph.withDuration`: a graph with another duration for one milestone.
* `Graph.Lengthens`: two graphs that differ in how long one milestone takes.

## Main statements

* `Graph.Built.withDuration`: a graph with another duration is one that records make.
* `Graph.Timed.total_eq_max`: the total of a lengthened graph.
* `Graph.compute_withDuration`: the same of computed schedules.
-/

namespace Milestones

/-! ## Another duration -/

/-- The node of a milestone with another planned duration. -/
def Node.withDuration (d : Duration) (n : Node) : Node :=
  { n with milestone := n.milestone.withDuration d }

theorem Node.recordId_withDuration (d : Duration) (n : Node) :
    recordId (n.withDuration d) = recordId n := rfl

namespace Graph

/-- A milestone with another planned duration, if it is the one that is meant. -/
def setDuration (m : MilestoneId) (d : Duration) (x : Milestone) : Milestone :=
  if x.id = m then x.withDuration d else x

/-- A graph with another planned duration for one of its milestones. -/
def withDuration (g : Graph) (m : MilestoneId) (d : Duration) : Graph :=
  { g with nodes := g.nodes.modify m (Node.withDuration d) }

variable {g g' : Graph} {m : MilestoneId} {d : Duration}

theorem get?_withDuration (id : MilestoneId) :
    (g.withDuration m d).nodes.get? id =
      if m = id then (g.nodes.get? id).map (Node.withDuration d) else g.nodes.get? id :=
  g.nodes.get?_modify (Node.recordId_withDuration d) id

theorem contains_withDuration (id : MilestoneId) :
    (g.withDuration m d).contains id = g.contains id :=
  g.nodes.contains_modify (Node.recordId_withDuration d) id

theorem prerequisites_withDuration (id : MilestoneId) :
    (g.withDuration m d).prerequisites id = g.prerequisites id := by
  rw [prerequisites, prerequisites, predecessors, predecessors, get?_withDuration]
  split
  · rw [Option.map_map]
    rfl
  · rfl

theorem duration_withDuration_of_ne {id : MilestoneId} (h : id ≠ m) :
    (g.withDuration m d).duration id = g.duration id := by
  rw [duration, duration, milestone?, milestone?, get?_withDuration, if_neg h.symm]

theorem duration_withDuration (hm : g.contains m = true) :
    (g.withDuration m d).duration m = d := by
  obtain ⟨n, hn⟩ := Table.contains_iff_get?.1 hm
  rw [duration, milestone?, get?_withDuration, if_pos rfl, hn]
  rfl

/-- The duration can be set before a milestone is added or after it. -/
theorem addMilestone_withDuration {x : Milestone} (h : g.addMilestone x = .ok g') :
    (g.withDuration m d).addMilestone (setDuration m d x) = .ok (g'.withDuration m d) := by
  obtain ⟨hcontract, hnew, rfl⟩ := addMilestone_eq_ok h
  have hsame : (setDuration m d x).contractId = x.contractId ∧ (setDuration m d x).id = x.id := by
    rw [setDuration]
    split <;> exact ⟨rfl, rfl⟩
  have hcontract' : (setDuration m d x).contractId = (g.withDuration m d).contractId :=
    hsame.1.trans hcontract
  have hnew' : (g.withDuration m d).nodes.contains (setDuration m d x).id = false := by
    rw [hsame.2]
    exact (contains_withDuration x.id).trans hnew
  simp only [addMilestone, hcontract', hnew', ne_eq, not_true_eq_false, Bool.false_eq_true,
    if_false]
  refine congrArg (fun nodes => Except.ok { g with nodes := nodes }) ?_
  have hnode : (if x.id = m then Node.withDuration d { milestone := x } else { milestone := x }) =
      { milestone := setDuration m d x } := by
    rw [setDuration]
    split <;> rfl
  rw [← hnode]
  exact (Table.modify_insert g.nodes (Node.recordId_withDuration d) { milestone := x }).symm

/-- The duration can be set before a dependency is added or after it. -/
theorem addDependency_withDuration {e : Dependency} (h : g.addDependency e = .ok g') :
    (g.withDuration m d).addDependency e = .ok (g'.withDuration m d) := by
  obtain ⟨hdependent, hprerequisite, rfl⟩ := addDependency_eq_ok h
  have hdependent' : (g.withDuration m d).nodes.contains e.milestoneId = true :=
    (contains_withDuration _).trans hdependent
  have hprerequisite' : (g.withDuration m d).nodes.contains e.dependsOnId = true :=
    (contains_withDuration _).trans hprerequisite
  simp only [addDependency, hdependent', hprerequisite', Bool.not_true, Bool.false_eq_true,
    if_false]
  refine congrArg (fun nodes => Except.ok { g with nodes := nodes, edges := g.edges ++ [e] }) ?_
  have hpredecessors : ∀ n : Node, recordId
      { n with predecessors := addLink n.predecessors ⟨e.dependsOnId, e.kind⟩ } = recordId n :=
    fun _ => rfl
  have hsuccessors : ∀ n : Node, recordId
      { n with successors := addLink n.successors ⟨e.milestoneId, e.kind⟩ } = recordId n :=
    fun _ => rfl
  -- The duration of a milestone and its links are different parts of a node.
  rw [withDuration, Table.modify_modify g.nodes (Node.recordId_withDuration d) hpredecessors fun _ => rfl]
  exact Table.modify_modify _ (Node.recordId_withDuration d) hsuccessors fun _ => rfl

/-- A graph with another duration is one that milestones and dependencies make. -/
theorem Built.withDuration (hg : g.Built) (m : MilestoneId) (d : Duration) :
    (g.withDuration m d).Built := by
  induction hg with
  | empty c => exact .empty c
  | addMilestone x _ h ih => exact ih.addMilestone _ (addMilestone_withDuration h)
  | addDependency e _ h ih => exact ih.addDependency e (addDependency_withDuration h)

/-! ## A longer milestone -/

/-- In the second graph one milestone takes longer by some nanoseconds.  Otherwise the graphs have
the same milestones, durations and prerequisites. -/
structure Lengthens (g g' : Graph) (m : MilestoneId) (delta : Int) : Prop where
  contains_eq : ∀ id, g'.contains id = g.contains id
  prerequisites_eq : ∀ id, g'.prerequisites id = g.prerequisites id
  duration_eq : ∀ id, id ≠ m → g'.duration id = g.duration id
  duration_self : (g'.duration m).nanos = (g.duration m).nanos + delta

theorem lengthens_withDuration (hm : g.contains m = true) {delta : Duration}
    (hd : (g.duration m).add? delta = some d) :
    g.Lengthens (g.withDuration m d) m delta.nanos where
  contains_eq := contains_withDuration
  prerequisites_eq := prerequisites_withDuration
  duration_eq _ := duration_withDuration_of_ne
  duration_self := by
    rw [duration_withDuration hm]
    exact Duration.add?_eq_some_iff.1 hd

/-- A prerequisite of what is not in the last part of a sequence stands in the first part. -/
theorem IsSequence.mem_before_of_mem_prerequisites {ids before after : List MilestoneId}
    (h : g.IsSequence ids) (hids : ids = before ++ m :: after) {a b : MilestoneId}
    (hb : b ∈ ids) (hafter : b ∉ after) (hab : a ∈ g.prerequisites b) : a ∈ before := by
  rw [hids, List.mem_append, List.mem_cons] at hb
  rcases hb with hb | rfl | hb
  · obtain ⟨front, back, rfl⟩ := List.append_of_mem hb
    rw [List.append_assoc, List.cons_append] at hids
    have hfront := h.mem_of_mem_prerequisites front b _ hids a hab
    exact List.mem_append_left _ hfront
  · exact h.mem_of_mem_prerequisites before b after hids a hab
  · exact absurd hb hafter

namespace Timed

variable {t t' : Timetable} {delta : Int} (h : g.Timed t) (hg : g.Linked) (h' : g'.Timed t')
  (hg' : g'.Linked) (hl : g.Lengthens g' m delta) (hm : g.contains m = true) (hdelta : 0 ≤ delta)
include h hg h' hg' hl hm hdelta

omit h hg hdelta in
/-- The earliest starts with the delay are a plan without it.  The milestone may start later in this
plan, by at most the delay. -/
theorem keeps_of_lengthens {shift : Int} (hzero : 0 ≤ shift) (hshift : shift ≤ delta) :
    g.Keeps t'.total.nanos fun x => (t'.earliestStart x).nanos + if x = m then shift else 0 := by
  -- With its own duration in the first graph, the milestone still finishes by its new finish.
  have hfinish : ∀ x, g.contains x = true →
      (t'.earliestStart x).nanos + (if x = m then shift else 0) + (g.duration x).nanos ≤
        (t'.earliestFinish x).nanos := by
    intro x hx
    have heq := h'.earliestFinish_eq ((hl.contains_eq x).trans hx)
    by_cases hxm : x = m
    · have hself := hl.duration_self
      subst hxm
      rw [if_pos rfl]
      omega
    · rw [if_neg hxm]
      rw [hl.duration_eq x hxm] at heq
      omega
  have hnonneg : ∀ x, 0 ≤ if x = m then shift else 0 := by
    intro x
    split <;> omega
  constructor
  · intro x hx
    have hstart := h'.zero_le_earliestStart hg' ((hl.contains_eq x).trans hx)
    have := hnonneg x
    omega
  · intro a b hab
    rw [← hl.prerequisites_eq] at hab
    have hin := (hg'.contains_of_mem_prerequisites hab).1
    have hle := h'.earliestFinish_le_earliestStart hg' hab
    have := hfinish a ((hl.contains_eq a).symm.trans hin)
    have := hnonneg b
    omega
  · intro x hx
    have hle := h'.earliestFinish_le_total hg' ((hl.contains_eq x).trans hx)
    have := hfinish x hx
    omega

/-- The end moves by at least the part of the delay that exceeds the slack. -/
theorem le_total_of_lengthens :
    t.total.nanos ≤ t'.total.nanos ∧
      t.total.nanos - (t.slack m).nanos + delta ≤ t'.total.nanos := by
  have hearly := h'.keeps_of_lengthens hg' hl hm (Int.le_refl 0) hdelta
  have hshifted := h'.keeps_of_lengthens hg' hl hm hdelta (Int.le_refl delta)
  have htotal := h'.zero_le_total hg' ((hl.contains_eq m).trans hm)
  refine ⟨h.total_le_of_keeps hg htotal hearly, ?_⟩
  have hfirst := h.earliestStart_le_of_keeps hg hearly hm
  have hlast := h.le_latestStart_of_keeps hg hshifted hm
  have hslack := h.slack_eq hm
  simp only [if_true] at hfirst hlast
  omega

omit h' hg' hdelta in
/-- A plan with the delay: what comes before the milestone starts as early as possible, what comes
after it as late as possible, moved by the excess. -/
theorem keeps_delayed {before after : List MilestoneId} (hids : t.ids = before ++ m :: after)
    {excess : Int} (hzero : 0 ≤ excess) (hexcess : delta - (t.slack m).nanos ≤ excess) :
    g'.Keeps (t.total.nanos + excess) fun x =>
      if x ∈ after then (t.latestStart x).nanos + excess else (t.earliestStart x).nanos := by
  have hnodup := h.isSequence.nodup
  rw [hids] at hnodup
  have hout : m ∉ after := (List.nodup_cons.1 hnodup.of_append_right).1
  have hbefore : ∀ x ∈ before, x ∉ after ∧ x ≠ m := fun x hx =>
    ⟨fun hx' => List.disjoint_of_nodup_append hnodup hx (List.mem_cons_of_mem _ hx'),
      fun hxm => List.disjoint_of_nodup_append hnodup hx (hxm ▸ List.mem_cons_self)⟩
  have hstart : ∀ x, g.contains x = true →
      (t.earliestStart x).nanos ≤ (t.latestStart x).nanos := by
    intro x hx
    have hroom := h.zero_le_slack hg hx
    have hslack := h.slack_eq hx
    omega
  -- Before its last possible finish, moved by the excess, every milestone of the plan is done.
  have hfinish : ∀ x, g.contains x = true →
      (if x ∈ after then (t.latestStart x).nanos + excess else (t.earliestStart x).nanos) +
        (g'.duration x).nanos ≤ (t.latestFinish x).nanos + excess := by
    intro x hx
    have hlatest := h.latestStart_eq hx
    have hle := hstart x hx
    by_cases hxm : x = m
    · have hself := hl.duration_self
      have hslack := h.slack_eq hx
      subst hxm
      rw [if_neg hout]
      omega
    · rw [hl.duration_eq x hxm]
      split <;> omega
  constructor
  · intro x hx
    rw [hl.contains_eq] at hx
    have hfirst := h.zero_le_earliestStart hg hx
    have hle := hstart x hx
    split <;> omega
  · intro a b hab
    rw [hl.prerequisites_eq] at hab
    obtain ⟨ha, hb⟩ := hg.contains_of_mem_prerequisites hab
    by_cases hafter : b ∈ after
    · rw [if_pos hafter]
      have hle := h.latestFinish_le_latestStart hg hab
      have := hfinish a ha
      omega
    · have hfront := h.isSequence.mem_before_of_mem_prerequisites hids
        ((h.isSequence.mem_iff b).2 hb) hafter hab
      obtain ⟨ha', hne⟩ := hbefore a hfront
      have hle := h.earliestFinish_le_earliestStart hg hab
      have heq := h.earliestFinish_eq ha
      rw [if_neg ha', if_neg hafter, hl.duration_eq a hne]
      omega
  · intro x hx
    rw [hl.contains_eq] at hx
    have hle := h.latestFinish_le_total hg hx
    have := hfinish x hx
    omega

/-- The end moves by the part of the delay that exceeds the slack. -/
theorem total_eq_max :
    t'.total.nanos = max t.total.nanos (t.total.nanos - (t.slack m).nanos + delta) := by
  obtain ⟨hkept, hmoved⟩ := h.le_total_of_lengthens hg h' hg' hl hm hdelta
  obtain ⟨before, after, hids⟩ := List.append_of_mem ((h.isSequence.mem_iff m).2 hm)
  have hexcess : 0 ≤ max 0 (delta - (t.slack m).nanos) := Int.le_max_left _ _
  have hplan := h.keeps_delayed hg hl hm hids hexcess (Int.le_max_right _ _)
  have htotal := h.zero_le_total hg hm
  have hle := h'.total_le_of_keeps hg' (by omega) hplan
  omega

end Timed

/-- A milestone takes longer by a delay, and both graphs have a schedule.  Then the new total is the
old one, or the old one moved by the part of the delay that exceeds the slack of the milestone.  The
delay of a critical milestone moves the end by all of it. -/
theorem compute_withDuration (hg : g.Built) {s s' : Schedule} (h : Schedule.compute g = .ok s)
    (hm : g.contains m = true) {delta : Duration} (hdelta : .zero ≤ delta)
    (hd : (g.duration m).add? delta = some d) (h' : Schedule.compute (g.withDuration m d) = .ok s') :
    ∃ x, s.timetable.timing? m = some x ∧
      s'.timetable.total.nanos =
        max s.timetable.total.nanos
          (s.timetable.total.nanos - x.slack.nanos + delta.nanos) ∧
      (x.isCritical = true →
        s'.timetable.total.nanos = s.timetable.total.nanos + delta.nanos) := by
  have ht := timed_of_compute hg.linked h
  have hg' := (hg.withDuration m d).linked
  have ht' := timed_of_compute hg' h'
  obtain ⟨x, hx⟩ := Timetable.exists_timing? ((ht.isSequence.mem_iff m).2 hm)
  have htotal := ht.total_eq_max hg.linked ht' hg' (lengthens_withDuration hm hd) hm hdelta
  rw [Timetable.slack, Timetable.offset_eq hx] at htotal
  refine ⟨x, hx, htotal, fun hcritical => ?_⟩
  have hslack : x.slack.nanos = 0 := congrArg Duration.nanos (eq_of_beq hcritical)
  have hnonneg : 0 ≤ delta.nanos := hdelta
  omega

/-- On the fork, the second milestone is delayed by four.  Two of them are slack, and so the end
moves by two. -/
theorem compute_withDuration_fork : fork.Built ∧ ∃ s s', Schedule.compute fork = .ok s ∧
    Schedule.compute (fork.withDuration 2 7) = .ok s' ∧ s'.timetable.total.nanos = 9 := by
  obtain ⟨s, hs, htimetable⟩ := compute_fork
  have hbuilt := built_of_ofRecords ofRecords_fork
  have hs' : Schedule.compute (fork.withDuration 2 7) = .ok
      ⟨fork.withDuration 2 7, ⟨1, [2, 4, 1, 3]⟩,
        { contractId := 1
          timings :=
            [⟨2, 7, 0, 7, 0, 7, 0, 0⟩, ⟨4, 0, 0, 0, 9, 9, 9, 9⟩, ⟨1, 5, 0, 5, 2, 7, 2, 2⟩,
              ⟨3, 2, 7, 9, 7, 9, 0, 0⟩]
          total := 9
          criticalPathDuration := 9
          slackTime := 11
          criticalChain := [2, 3] }⟩ := by cbv
  refine ⟨hbuilt, s, _, hs, hs', ?_⟩
  have hd : (fork.duration 2).add? 4 = some 7 := by decide
  obtain ⟨x, hx, htotal, -⟩ := compute_withDuration hbuilt hs (by decide) (by decide) hd hs'
  rw [htimetable] at hx htotal
  cases hx
  exact htotal

end Graph

end Milestones
