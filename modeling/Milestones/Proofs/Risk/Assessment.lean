import Milestones.Proofs.Graph.Listing
import Milestones.Proofs.Risk.ScoreOrder
import Milestones.Proofs.Schedule.Timetable

/-!
# What an assessment says

An assessment divides the milestones by level, gives each of them a score, and lists the plans for
those that are still at risk.  All of it comes from one list, that of the milestones in the order of
work, and nothing is lost or doubled on the way.  What is done or dropped, as it is counted, bears
no risk.

## Main definitions

* `RiskAssessment.Rates`: what a row says about a milestone.
* `RiskAssessment.Assesses`: what an assessment says about a schedule.

## Main statements

* `RiskAssessment.isClosed_iff`: no risk is borne by what is done or dropped.
* `RiskAssessment.pairwise_mergeSort`: equal scores stay in order.
* `Graph.exists_assesses`: every computed schedule is assessed, with any valid weights.
-/

namespace Milestones

/-! ## The milestones of an order -/

namespace Graph

variable {g : Graph} {ids : List MilestoneId} (h : g.IsWorkOrder ids)
include h

/-- The milestones follow their identifiers. -/
theorem IsWorkOrder.map_id_milestones : (ids.filterMap g.milestone?).map Milestone.id = ids := by
  have hid : ∀ id ∈ ids, (g.milestone? id).map Milestone.id = some id := fun id hin => by
    obtain ⟨m, hm⟩ := exists_milestone? ((h.mem_iff id).1 hin)
    rw [hm, Option.map_some, id_of_milestone? hm]
  rw [List.map_filterMap, List.filterMap_congr hid, List.filterMap_some]

/-- An order has all the milestones. -/
theorem IsWorkOrder.mem_milestones_iff {m : Milestone} :
    m ∈ ids.filterMap g.milestone? ↔ m ∈ g.milestones := by
  rw [List.mem_filterMap]
  constructor
  · rintro ⟨id, -, hm⟩
    exact mem_milestones_of_milestone? hm
  · intro hm
    exact ⟨m.id, (h.mem_iff _).2 (contains_iff_exists_mem.2 ⟨m, hm, rfl⟩),
      Graph.mem_milestones_iff.1 hm⟩

end Graph

namespace RiskAssessment

/-! ## Levels and scores -/

/-- What is done or dropped, and nothing else, bears no risk. -/
theorem isClosed_iff {m : Milestone} :
    isClosed m = true ↔ m.isDone = true ∨ m.isDropped = true := by
  rw [isClosed, Milestone.isOpen, Milestone.isDropped, bne]
  cases m.isDone <;> cases m.status == .cancelled <;> simp

theorem isClosed_eq_false_iff {m : Milestone} :
    isClosed m = false ↔ m.isDone = false ∧ m.isDropped = false := by
  rw [← Bool.not_eq_true, isClosed_iff, not_or, Bool.not_eq_true, Bool.not_eq_true]

/-- Every milestone is on one of the three levels. -/
theorem perm_levels (ms : List Milestone) :
    ((ms.filter fun m => m.riskLevel == .high) ++ (ms.filter fun m => m.riskLevel == .medium) ++
      (ms.filter fun m => m.riskLevel == .low)).Perm ms := by
  induction ms with
  | nil => exact .refl _
  | cons m ms ih =>
    rw [List.filter_cons, List.filter_cons, List.filter_cons]
    cases m.riskLevel with
    | high => exact ih.cons m
    | medium => exact (List.perm_middle.append_right _).trans (ih.cons m)
    | low => exact List.perm_middle.trans (ih.cons m)

/-! ## Sorted scores -/

/-- The order in which scores are listed. -/
def ranksFirst (a b : MilestoneRisk) : Bool := scoreRank b.score ≤ scoreRank a.score

theorem ranksFirst_trans (a b c : MilestoneRisk) :
    ranksFirst a b = true → ranksFirst b c = true → ranksFirst a c = true := by
  simp only [ranksFirst, decide_eq_true_eq]
  omega

theorem ranksFirst_total (a b : MilestoneRisk) : (ranksFirst a b || ranksFirst b a) = true := by
  simp only [ranksFirst, Bool.or_eq_true, decide_eq_true_eq]
  omega

/-- With positions to tell them apart, equal scores stand in the order of their positions. -/
theorem of_zipIdxLE {p q : MilestoneRisk × Nat} (h : List.zipIdxLE ranksFirst p q = true) :
    IsBelow q.1.score p.1.score ∨ p.1.score = q.1.score ∧ p.2 ≤ q.2 := by
  simp only [List.zipIdxLE, ranksFirst, decide_eq_true_eq, Bool.if_false_right, Bool.and_eq_true,
    Bool.if_true_right, Bool.or_eq_true] at h
  rcases Int.lt_or_eq_of_le h.1 with hlt | heq
  · exact .inl (scoreRank_lt_iff.1 hlt)
  · exact .inr ⟨eq_of_scoreRank heq.symm,
      h.2.resolve_left fun hnot => absurd (Int.le_of_eq heq.symm) (by simpa using hnot)⟩

/-- Sorted scores go down, and equal ones stay in the order of some identifiers. -/
theorem pairwise_mergeSort {risks : List MilestoneRisk} {ids : List MilestoneId}
    (hids : risks.map MilestoneRisk.milestoneId = ids) (hnodup : ids.Nodup) :
    (risks.mergeSort ranksFirst).Pairwise fun x y =>
      IsBelow y.score x.score ∨
        x.score = y.score ∧ ids.idxOf x.milestoneId < ids.idxOf y.milestoneId := by
  have hperm := List.mergeSort_perm risks.zipIdx (List.zipIdxLE ranksFirst)
  have hsorted := List.pairwise_mergeSort (List.zipIdxLE_trans ranksFirst_trans)
    (List.zipIdxLE_total ranksFirst_total) risks.zipIdx
  have hdistinct := (hperm.map Prod.snd).nodup_iff.2
    (List.zipIdx_map_snd 0 risks ▸ List.nodup_range' _)
  have hposition : ∀ p ∈ risks.zipIdx, ids.idxOf p.1.milestoneId = p.2 := fun p hp => by
    have hget : ids[p.2]? = some p.1.milestoneId := by
      rw [← hids, List.getElem?_map, List.mk_mem_zipIdx_iff_getElem?.1 hp, Option.map_some]
    obtain ⟨hlt, hget⟩ := List.getElem?_eq_some_iff.1 hget
    rw [← hget, hnodup.idxOf_getElem]
  rw [← List.mergeSort_zipIdx, List.pairwise_map]
  refine (hsorted.and (List.pairwise_map.1 hdistinct)).imp_of_mem fun {p q} hp hq ⟨hle, hne⟩ => ?_
  rw [hposition p (hperm.mem_iff.1 hp), hposition q (hperm.mem_iff.1 hq)]
  exact (of_zipIdxLE hle).imp_right fun h => ⟨h.1, Nat.lt_of_le_of_ne h.2 hne⟩

/-! ## Assessments -/

/-- The milestones of a level. -/
def atLevel (a : RiskAssessment) : RiskLevel → List MilestoneId
  | .high => a.high
  | .medium => a.medium
  | .low => a.low

/-- The row of a milestone says what the timetable says, and the score is that of its weight and its
slack, or zero for what is done or dropped. -/
structure Rates (w : RiskWeights) (m : Milestone) (t : Timing) (r : MilestoneRisk) : Prop where
  riskLevel_eq : r.riskLevel = m.riskLevel
  slack_eq : r.slack = t.slack
  isCritical_eq : r.isCritical = t.isCritical
  score_of_isOpen : m.isOpen = true → r.score = w.score m.criticalityScore t.slack
  score_eq_zero : m.isDone = true ∨ m.isDropped = true → r.score = 0

/-- Every milestone is on its level and has a score, and what is open on the high level has its
plans listed.  All lists are in the order of work, except that the highest scores come first. -/
structure Assesses (s : Schedule) (w : RiskWeights) (a : RiskAssessment) : Prop where
  isWorkOrder : s.graph.IsWorkOrder s.order.ids
  perm_levels : (a.high ++ a.medium ++ a.low).Perm s.order.ids
  mem_atLevel_iff : ∀ level id,
    id ∈ a.atLevel level ↔ ∃ m ∈ s.graph.milestones, m.riskLevel = level ∧ m.id = id
  sublist_atLevel : ∀ level, (a.atLevel level).Sublist s.order.ids
  perm_scores : (a.scores.map MilestoneRisk.milestoneId).Perm s.order.ids
  rates : ∀ r ∈ a.scores, ∃ m ∈ s.graph.milestones, ∃ t, m.id = r.milestoneId ∧
    s.timetable.timing? r.milestoneId = some t ∧ Rates w m t r
  ranked : a.scores.Pairwise fun x y =>
    IsBelow y.score x.score ∨
      x.score = y.score ∧ s.order.ids.idxOf x.milestoneId < s.order.ids.idxOf y.milestoneId
  mem_contingencies_iff : ∀ c, c ∈ a.contingencies ↔
    ∃ m ∈ s.graph.milestones, m.riskLevel = .high ∧ m.isDone = false ∧ m.isDropped = false ∧
      c = ⟨m.id, m.title, m.contingencyPlans⟩
  sublist_contingencies : (a.contingencies.map Contingency.milestoneId).Sublist s.order.ids

theorem rates_riskOf {s : Schedule} (w : RiskWeights) {m : Milestone} {t : Timing}
    (ht : s.timetable.timing? m.id = some t) : Rates w m t (riskOf s w m) := by
  constructor
  · rfl
  · rw [riskOf, ht]
    rfl
  · rw [riskOf, ht]
    rfl
  · intro hopen
    rw [riskOf, ht, isClosed, hopen]
    rfl
  · intro hdone
    rw [riskOf, isClosed_iff.2 hdone]
    rfl

end RiskAssessment

namespace Graph

open RiskAssessment

/-- Every computed schedule is assessed with any valid weights, and the assessment says what it has
to say about every milestone. -/
theorem exists_assesses {g : Graph} (hg : g.Built) {s : Schedule} (h : Schedule.compute g = .ok s)
    {w : RiskWeights} (hw : w.validate = .ok ()) :
    s.graph = g ∧ ∃ a, RiskAssessment.compute s w = .ok a ∧ Assesses s w a := by
  obtain ⟨rfl, horder, -⟩ := compute_eq_ok h
  have ho := (isWorkOrder_of_workOrder hg.linked horder).2
  have ht := timed_of_compute hg.linked h
  refine ⟨rfl, _, by rw [RiskAssessment.compute, hw]; rfl, ?_⟩
  -- From here on, only what the milestones of the order are matters.
  have hids := ho.map_id_milestones
  have hmem : ∀ {m}, m ∈ s.order.ids.filterMap s.graph.milestone? ↔ m ∈ s.graph.milestones :=
    ho.mem_milestones_iff
  generalize s.order.ids.filterMap s.graph.milestone? = ms at hids hmem ⊢
  have hsublist : ∀ keep : Milestone → Bool,
      ((ms.filter keep).map Milestone.id).Sublist s.order.ids := fun keep =>
    hids ▸ List.filter_sublist.map Milestone.id
  have hrisks : (ms.map (riskOf s w)).map MilestoneRisk.milestoneId = s.order.ids := by
    rw [List.map_map]
    exact hids
  have hscores := List.mergeSort_perm (ms.map (riskOf s w)) ranksFirst
  refine
    { isWorkOrder := ho
      perm_levels := ?_
      mem_atLevel_iff := fun level id => ?_
      sublist_atLevel := fun level => ?_
      perm_scores := ?_
      rates := fun r hr => ?_
      ranked := pairwise_mergeSort hrisks ho.nodup
      mem_contingencies_iff := fun c => ?_
      sublist_contingencies := ?_ }
  · have hperm := (perm_levels ms).map Milestone.id
    rw [hids, List.map_append, List.map_append] at hperm
    exact hperm
  · have hlevel : id ∈ (ms.filter fun m => m.riskLevel == level).map Milestone.id ↔
        ∃ m ∈ s.graph.milestones, m.riskLevel = level ∧ m.id = id := by
      simp only [List.mem_map, List.mem_filter, hmem, beq_iff_eq, and_assoc]
    cases level <;> exact hlevel
  · cases level <;> exact hsublist _
  · have hperm := hscores.map MilestoneRisk.milestoneId
    rw [hrisks] at hperm
    exact hperm
  · obtain ⟨m, hm, rfl⟩ := List.mem_map.1 (hscores.mem_iff.1 hr)
    have hm := hmem.1 hm
    obtain ⟨t, htiming⟩ := Timetable.exists_timing?
      ((ht.isSequence.mem_iff m.id).2 (contains_iff_exists_mem.2 ⟨m, hm, rfl⟩))
    exact ⟨m, hm, t, rfl, htiming, rates_riskOf w htiming⟩
  · simp only [List.mem_map, List.mem_filter, hmem, Bool.and_eq_true, beq_iff_eq, Bool.not_eq_true',
      isClosed_eq_false_iff, and_assoc, eq_comm (a := c)]
  · rw [List.map_map]
    exact hsublist _

/-! ## The risks of a fork -/

/-- The fork with risks: its start is done, its second start and its end are not, and the gate is
dropped. -/
def riskyMilestones : List Milestone :=
  forkMilestones.map fun m =>
    { m with
      riskLevel := if m.id = 2 then .medium else .high
      criticalityScore := 50
      status := if m.id = 4 then .cancelled else .pending
      percentageComplete := if m.id = 1 then 100 else 0
      contingencyPlans := ["another crew"] }

def riskyFork : Graph :=
  match ofRecords 1 riskyMilestones forkDependencies with
  | .ok g => g
  | .error _ => { contractId := 1 }

theorem ofRecords_riskyFork : ofRecords 1 riskyMilestones forkDependencies = .ok riskyFork := rfl

/-- The gate is dropped and the start is done, so plans are listed for the end alone. -/
theorem exists_assesses_riskyFork : riskyFork.Built ∧ ∃ s, Schedule.compute riskyFork = .ok s ∧
    ({} : RiskWeights).validate = .ok () ∧
      (∃ a, RiskAssessment.compute s {} = .ok a ∧ Assesses s {} a) ∧
        (RiskAssessment.compute s {}).map (fun a => (a.high, a.medium, a.contingencies)) =
          .ok ([4, 1, 3], [2], [⟨3, "", ["another crew"]⟩]) := by
  have hbuilt := built_of_ofRecords ofRecords_riskyFork
  have hok : Schedule.compute riskyFork = .ok ⟨riskyFork, ⟨1, [2, 4, 1, 3]⟩, forkTimetable⟩ := by
    cbv
  have hvalid : ({} : RiskWeights).validate = .ok () := by rfl
  exact ⟨hbuilt, _, hok, hvalid, (exists_assesses hbuilt hok hvalid).2, by rfl⟩

end Graph

end Milestones
