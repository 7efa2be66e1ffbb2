import Milestones.Proofs.Schedule.Delay

/-!
# Free slack is the delay that nothing else notices

The slack of a milestone is shared with what comes before and after it: a delay within the slack
does not move the end of the contract, but it may move other milestones.  The free slack belongs to
the milestone alone.  A delay within it leaves the earliest times of every other milestone and the
end where they are, and a longer one moves the first of the dependents, or the end if there are no
dependents.

The two cases are two definitions, a minimum over the dependents and a difference to the total.
They are brought under one roof first, by bounds that hold in both.

## Main definitions

* `Timetable.KeepsAllBut`: a timetable in which a delay moved nothing but the delayed milestone.

## Main statements

* `Graph.Timed.zero_le_freeSlack`, `Graph.Timed.freeSlack_le_slack`: the range of free slack.
* `Graph.Timed.earliestStart_of_le_freeSlack`: a delay within the free slack moves no start.
* `Graph.Timed.keepsAllBut_iff`: what a delay moves.
* `Graph.compute_keepsAllBut_iff`: the same of computed schedules.
-/

namespace Milestones

/-- In the second timetable, every milestone but one starts and finishes as early as in the first,
and so does the contract. -/
structure Timetable.KeepsAllBut (t t' : Timetable) (m : MilestoneId) : Prop where
  earliestStart_eq : ∀ b ∈ t.ids, b ≠ m → t'.earliestStart b = t.earliestStart b
  earliestFinish_eq : ∀ b ∈ t.ids, b ≠ m → t'.earliestFinish b = t.earliestFinish b
  total_eq : t'.total = t.total

namespace Graph

/-- No milestone is its own prerequisite along a sequence. -/
theorem IsSequence.ne_of_mem_prerequisites {g : Graph} {ids : List MilestoneId}
    (h : g.IsSequence ids) {a b : MilestoneId} (hb : g.contains b = true)
    (hab : a ∈ g.prerequisites b) : a ≠ b := by
  rintro rfl
  obtain ⟨before, after, hids⟩ := List.append_of_mem ((h.mem_iff a).2 hb)
  have hbefore := h.mem_of_mem_prerequisites before a after hids a hab
  have hnodup := h.nodup
  rw [hids] at hnodup
  exact List.disjoint_of_nodup_append hnodup hbefore List.mem_cons_self

namespace Timed

variable {g : Graph} {t : Timetable} (h : g.Timed t)
include h

/-! ## The range of free slack -/

/-- The free slack is attained at the end, without dependents, or at the start of one of them. -/
theorem freeSlack_attained {m : MilestoneId} (hm : g.contains m = true) :
    g.dependents m = [] ∧ (t.earliestFinish m).nanos + (t.freeSlack m).nanos = t.total.nanos ∨
      ∃ b ∈ g.dependents m,
        (t.earliestFinish m).nanos + (t.freeSlack m).nanos = (t.earliestStart b).nanos := by
  have hfree := h.freeSlack_eq hm
  rcases (Duration.minimum?_getD_map (g.dependents m) t.earliestStart t.total).2 with
    ⟨hsink, hnext⟩ | ⟨b, hb, hnext⟩
  · rw [hnext] at hfree
    exact .inl ⟨hsink, by omega⟩
  · rw [hnext] at hfree
    exact .inr ⟨b, hb, by omega⟩

/-- After its free slack, a milestone finishes before its dependents start. -/
theorem freeSlack_le_earliestStart {m b : MilestoneId} (hm : g.contains m = true)
    (hb : b ∈ g.dependents m) :
    (t.earliestFinish m).nanos + (t.freeSlack m).nanos ≤ (t.earliestStart b).nanos := by
  have hfree := h.freeSlack_eq hm
  have hle : ((Duration.minimum? ((g.dependents m).map t.earliestStart)).getD t.total).nanos ≤
      (t.earliestStart b).nanos := (Duration.minimum?_getD_map _ _ _).1 b hb
  omega

variable (hg : g.Linked)
include hg

/-- A milestone can finish before anything else starts. -/
theorem zero_le_freeSlack {m : MilestoneId} (hm : g.contains m = true) :
    0 ≤ (t.freeSlack m).nanos := by
  rcases h.freeSlack_attained hm with ⟨-, hend⟩ | ⟨b, hb, hstart⟩
  · have hle := h.earliestFinish_le_total hg hm
    omega
  · have hle := h.earliestFinish_le_earliestStart hg
      (hg.mem_dependents_iff_mem_prerequisites.1 hb)
    omega

/-- What moves nothing else does not move the end. -/
theorem freeSlack_le_slack {m : MilestoneId} (hm : g.contains m = true) :
    (t.freeSlack m).nanos ≤ (t.slack m).nanos := by
  have hslack := h.slack_eq_finish hm
  rcases h.latestFinish_attained hm with ⟨hsink, htotal⟩ | ⟨b, hb, hlatest⟩
  · rcases h.freeSlack_attained hm with ⟨-, hend⟩ | ⟨b, hb, -⟩
    · rw [htotal] at hslack
      omega
    · rw [hsink] at hb
      cases hb
  · have hin := (hg.contains_of_mem_dependents hb).2
    have hfree := h.freeSlack_le_earliestStart hm hb
    have hroom := h.zero_le_slack hg hin
    have hstart := h.slack_eq hin
    rw [hlatest] at hslack
    omega

/-! ## What a delay moves -/

section Delay

variable {g' : Graph} {t' : Timetable} {m : MilestoneId} {delta : Int} (h' : g'.Timed t')
  (hg' : g'.Linked) (hl : g.Lengthens g' m delta) (hm : g.contains m = true)
include h' hg' hl hm

/-- A delay moves no start to the front. -/
theorem earliestStart_le_of_lengthens (hdelta : 0 ≤ delta) {x : MilestoneId}
    (hx : g.contains x = true) : (t.earliestStart x).nanos ≤ (t'.earliestStart x).nanos := by
  have hplan := h'.keeps_of_lengthens hg' hl hm (Int.le_refl 0) hdelta
  have hle := h.earliestStart_le_of_keeps hg hplan hx
  split at hle <;> omega

omit h hg hg' in
/-- The delayed milestone takes longer by the delay. -/
theorem earliestFinish_self : (t'.earliestFinish m).nanos =
    (t'.earliestStart m).nanos + (g.duration m).nanos + delta := by
  have hfinish := h'.earliestFinish_eq ((hl.contains_eq m).trans hm)
  rw [hl.duration_self] at hfinish
  omega

omit hg hg' hm in
/-- A milestone that starts when it did finishes when it did, unless it is the delayed one. -/
theorem earliestFinish_of_earliestStart {x : MilestoneId} (hx : g.contains x = true) (hxm : x ≠ m)
    (hstart : t'.earliestStart x = t.earliestStart x) :
    t'.earliestFinish x = t.earliestFinish x := by
  have hfinish := h.earliestFinish_eq hx
  have hfinish' := h'.earliestFinish_eq ((hl.contains_eq x).trans hx)
  rw [hl.duration_eq x hxm, hstart] at hfinish'
  exact Duration.ext (by omega)

/-- A delay within the free slack moves no start, not even that of the delayed milestone. -/
theorem earliestStart_of_le_freeSlack (hdelta : 0 ≤ delta) (hle : delta ≤ (t.freeSlack m).nanos)
    {x : MilestoneId} (hx : g.contains x = true) : t'.earliestStart x = t.earliestStart x := by
  refine h.isSequence.forward_induction
    (P := fun x => t'.earliestStart x = t.earliestStart x) (fun x hx ih => ?_) hx
  have hfront := h.earliestStart_le_of_lengthens hg h' hg' hl hm hdelta hx
  refine Duration.ext (Int.le_antisymm ?_ hfront)
  rcases h'.earliestStart_attained ((hl.contains_eq x).trans hx) with ⟨-, hzero⟩ | ⟨p, hp, hstart⟩
  · rw [hzero]
    exact h.zero_le_earliestStart hg hx
  · rw [hl.prerequisites_eq] at hp
    have hpin := (hg.contains_of_mem_prerequisites hp).1
    rw [hstart]
    by_cases hpm : p = m
    · -- The delayed milestone uses up its free slack, and finishes before this one starts.
      subst hpm
      have hroom := h.freeSlack_le_earliestStart hm
        (hg.mem_dependents_iff_mem_prerequisites.2 hp)
      have hfinish := h.earliestFinish_eq hm
      have hfinish' := h'.earliestFinish_self hl hm
      rw [ih p hp] at hfinish'
      omega
    · rw [h.earliestFinish_of_earliestStart h' hl hpin hpm (ih p hp)]
      exact h.earliestFinish_le_earliestStart hg hp

/-- A delay beyond the free slack moves the end or the start of a dependent. -/
theorem not_keepsAllBut_of_freeSlack_lt (hdelta : 0 ≤ delta)
    (hlt : (t.freeSlack m).nanos < delta) : ¬t.KeepsAllBut t' m := by
  intro hkeeps
  have hfront := h.earliestStart_le_of_lengthens hg h' hg' hl hm hdelta hm
  have hfinish := h.earliestFinish_eq hm
  have hfinish' := h'.earliestFinish_self hl hm
  rcases h.freeSlack_attained hm with ⟨-, hend⟩ | ⟨b, hb, hstart⟩
  · have hle := h'.earliestFinish_le_total hg' ((hl.contains_eq m).trans hm)
    rw [hkeeps.total_eq] at hle
    omega
  · have hbin := (hg.contains_of_mem_dependents hb).2
    have hmb := hg.mem_dependents_iff_mem_prerequisites.1 hb
    have hne := h.isSequence.ne_of_mem_prerequisites hbin hmb
    rw [← hl.prerequisites_eq] at hmb
    have hle := h'.earliestFinish_le_earliestStart hg' hmb
    rw [hkeeps.earliestStart_eq b ((h.isSequence.mem_iff b).2 hbin) hne.symm] at hle
    omega

/-- A delay leaves everything else where it is exactly if it is within the free slack. -/
theorem keepsAllBut_iff (hdelta : 0 ≤ delta) :
    t.KeepsAllBut t' m ↔ delta ≤ (t.freeSlack m).nanos := by
  constructor
  · intro hkeeps
    by_contra hlt
    exact h.not_keepsAllBut_of_freeSlack_lt hg h' hg' hl hm hdelta (Int.not_le.1 hlt) hkeeps
  · intro hle
    have hstart := fun {x} => h.earliestStart_of_le_freeSlack hg h' hg' hl hm hdelta hle (x := x)
    have hin := fun b hb => (h.isSequence.mem_iff b).1 hb
    refine ⟨fun b hb _ => hstart (hin b hb), fun b hb hbm => ?_, Duration.ext ?_⟩
    · exact h.earliestFinish_of_earliestStart h' hl (hin b hb) hbm (hstart (hin b hb))
    · have htotal := h.total_eq_max hg h' hg' hl hm hdelta
      have hslack := h.freeSlack_le_slack hg hm
      omega

end Delay

end Timed

/-! ## Computed schedules -/

/-- A milestone takes longer by a delay, and both graphs have a schedule.  The free slack of the
milestone is not negative and at most its slack, and it says what the delay moves: every other
milestone and the end stay where they are exactly if the delay is within the free slack. -/
theorem compute_keepsAllBut_iff {g : Graph} (hg : g.Built) {s s' : Schedule}
    (h : Schedule.compute g = .ok s) {m : MilestoneId} (hm : g.contains m = true)
    {delta d : Duration} (hdelta : .zero ≤ delta) (hd : (g.duration m).add? delta = some d)
    (h' : Schedule.compute (g.withDuration m d) = .ok s') :
    ∃ x, s.timetable.timing? m = some x ∧ .zero ≤ x.freeSlack ∧ x.freeSlack ≤ x.slack ∧
      (s.timetable.KeepsAllBut s'.timetable m ↔ delta ≤ x.freeSlack) := by
  have ht := timed_of_compute hg.linked h
  have hg' := (hg.withDuration m d).linked
  have ht' := timed_of_compute hg' h'
  obtain ⟨x, hx⟩ := Timetable.exists_timing? ((ht.isSequence.mem_iff m).2 hm)
  have hzero := ht.zero_le_freeSlack hg.linked hm
  have hslack := ht.freeSlack_le_slack hg.linked hm
  have hkeeps := ht.keepsAllBut_iff hg.linked ht' hg' (lengthens_withDuration hm hd) hm hdelta
  simp only [Timetable.slack, Timetable.freeSlack, Timetable.offset_eq hx] at hzero hslack hkeeps
  exact ⟨x, hx, hzero, hslack, hkeeps⟩

/-! ## A bypass -/

/-- Two short milestones in a row and a long one, all before a last one. -/
def bypassMilestones : List Milestone :=
  let plain (id : MilestoneId) (span : Duration) : Milestone :=
    { id := id, contractId := 1, title := "", estimatedDuration := some span }
  [plain 1 1, plain 2 1, plain 3 5, plain 4 1]

/-- The short milestones are a way round the long one. -/
def bypassDependencies : List Dependency :=
  [⟨1, 2, 1, .prerequisite⟩, ⟨2, 4, 2, .prerequisite⟩, ⟨3, 4, 3, .prerequisite⟩]

/-- The bypass as a graph. -/
def bypass : Graph :=
  match ofRecords 1 bypassMilestones bypassDependencies with
  | .ok g => g
  | .error _ => { contractId := 1 }

/-- Both short milestones have the same slack, but only the second one has it for itself: a delay of
the first one moves the second one and not the end, a delay of the second one moves nothing. -/
theorem keepsAllBut_bypass : bypass.Built ∧ ∃ s s₁ s₂, Schedule.compute bypass = .ok s ∧
    Schedule.compute (bypass.withDuration 1 2) = .ok s₁ ∧
    Schedule.compute (bypass.withDuration 2 4) = .ok s₂ ∧
    s₁.timetable.total = s.timetable.total ∧ ¬s.timetable.KeepsAllBut s₁.timetable 1 ∧
    s.timetable.KeepsAllBut s₂.timetable 2 := by
  have hbuilt : bypass.Built :=
    built_of_ofRecords (show ofRecords 1 bypassMilestones bypassDependencies = .ok bypass from rfl)
  have hs : Schedule.compute bypass = .ok ⟨bypass, ⟨1, [1, 2, 3, 4]⟩,
      { contractId := 1
        timings :=
          [⟨1, 1, 0, 1, 3, 4, 3, 0⟩, ⟨2, 1, 1, 2, 4, 5, 3, 3⟩, ⟨3, 5, 0, 5, 0, 5, 0, 0⟩,
            ⟨4, 1, 5, 6, 5, 6, 0, 0⟩]
        total := 6
        criticalPathDuration := 6
        slackTime := 6
        criticalChain := [3, 4] }⟩ := by cbv
  have hs₁ : Schedule.compute (bypass.withDuration 1 2) =
      .ok ⟨bypass.withDuration 1 2, ⟨1, [1, 2, 3, 4]⟩,
        { contractId := 1
          timings :=
            [⟨1, 2, 0, 2, 2, 4, 2, 0⟩, ⟨2, 1, 2, 3, 4, 5, 2, 2⟩, ⟨3, 5, 0, 5, 0, 5, 0, 0⟩,
              ⟨4, 1, 5, 6, 5, 6, 0, 0⟩]
          total := 6
          criticalPathDuration := 6
          slackTime := 4
          criticalChain := [3, 4] }⟩ := by cbv
  have hs₂ : Schedule.compute (bypass.withDuration 2 4) =
      .ok ⟨bypass.withDuration 2 4, ⟨1, [1, 2, 3, 4]⟩,
        { contractId := 1
          timings :=
            [⟨1, 1, 0, 1, 0, 1, 0, 0⟩, ⟨2, 4, 1, 5, 1, 5, 0, 0⟩, ⟨3, 5, 0, 5, 0, 5, 0, 0⟩,
              ⟨4, 1, 5, 6, 5, 6, 0, 0⟩]
          total := 6
          criticalPathDuration := 6
          slackTime := 0
          criticalChain := [1, 2, 4] }⟩ := by cbv
  have hd₁ : (bypass.duration 1).add? 1 = some 2 := by decide
  have hd₂ : (bypass.duration 2).add? 3 = some 4 := by decide
  obtain ⟨x₁, hx₁, -, -, hkeeps₁⟩ :=
    compute_keepsAllBut_iff hbuilt hs (by decide) (by decide) hd₁ hs₁
  obtain ⟨x₂, hx₂, -, -, hkeeps₂⟩ :=
    compute_keepsAllBut_iff hbuilt hs (by decide) (by decide) hd₂ hs₂
  cases hx₁
  cases hx₂
  exact ⟨hbuilt, _, _, _, hs, hs₁, hs₂, rfl, fun h => absurd (hkeeps₁.1 h) (by decide),
    hkeeps₂.2 (by decide)⟩

end Graph

end Milestones
