import Milestones.Proofs.Outcome
import Milestones.Proofs.Schedule.Offsets

/-!
# Timetables solve their equations

A timetable is the result of both passes, put into one list.  What the passes know of a milestone
are its offsets in the timetable, so the rule by which each entry follows from those of its
neighbours is one of the equations.

The last step of a computation traces a critical chain.  It cannot change an offset, so it is kept
apart here.

## Main definitions

* `Graph.draft`, `Timetable.traced`: a computation without its last step, and the last step.
* `Graph.Joined`: the lists of both passes and the timetable that joins them.

## Main statements

* `Graph.timetable_eq`: the two parts make up the whole.
* `Graph.timed_of_draft`, `Graph.timed_of_compute`: the offsets solve the equations.
* `Graph.draft_eq_fault`: only a duration out of range stops a draft.
-/

namespace Milestones

open Outcome

/-! ## The two parts of a computation -/

/-- What is refused before anything is computed. -/
def Graph.check (g : Graph) (o : WorkOrder) : Outcome ScheduleError Unit :=
  if !o.fits g then Outcome.refuse (.orderMismatch g.contractId)
  else
    match g.negative? o.ids with
    | some id => Outcome.refuse (.negativeDuration id (g.duration id).seconds)
    | none => pure ()

/-- The timetable of a graph along an order of work, before its critical chain is traced. -/
def Graph.draft (g : Graph) (o : WorkOrder) : Outcome ScheduleError Timetable := do
  g.check o
  let early ← Outcome.ofExcept id (forwardPass g [] o.ids)
  let total := totalDuration g early
  let late ← Outcome.orFault .durationRange (backwardPass g total early)
  let timings ← Outcome.orFault .durationRange (late.mapM (Late.timing? g early total))
  let slackTime ← Outcome.orFault .durationRange (sumDurations (timings.map Timing.slack))
  pure
    { contractId := g.contractId
      timings := timings
      total := total
      criticalPathDuration := .zero
      slackTime := slackTime
      criticalChain := [] }

/-- The timetable with its critical chain, provided that the chain is as long as the
schedule. -/
def Timetable.traced (g : Graph) (t : Timetable) : Outcome ScheduleError Timetable := do
  let chain ← Outcome.orFault .endlessChain (criticalChain? g t.timings t.total)
  let length ← Outcome.orFault .durationRange
    (sumDurations (chain.filterMap fun id => (t.timing? id).map Timing.duration))
  if length = t.total then
    pure { t with criticalPathDuration := length, criticalChain := chain }
  else .error (.fault .chainLength)

namespace Graph

/-- A timetable is drafted first, then its critical chain is traced. -/
theorem timetable_eq (g : Graph) (o : WorkOrder) :
    g.timetable o = g.draft o >>= Timetable.traced g := by
  rw [timetable, draft, check]
  by_cases hfits : o.fits g = true
  · cases hneg : g.negative? o.ids with
    | some id => simp [hfits, refuse, bind, Except.bind]
    | none =>
      simp [hfits]
      rfl
  · simp [hfits, refuse, bind, Except.bind]

theorem check_eq_ok {g : Graph} {o : WorkOrder} {u : Unit} (h : g.check o = .ok u) :
    o.fits g = true ∧ g.negative? o.ids = none := by
  rw [check] at h
  split at h
  · cases h
  · rename_i hfits
    split at h
    · cases h
    · rename_i hneg
      exact ⟨by simpa using hfits, hneg⟩

theorem check_eq_refused {g : Graph} {o : WorkOrder} {e : ScheduleError}
    (h : g.check o = .error (.refused e)) :
    o.fits g = false ∧ e = .orderMismatch g.contractId ∨
      ∃ id, g.negative? o.ids = some id ∧ e = .negativeDuration id (g.duration id).seconds := by
  rw [check] at h
  split at h
  · rename_i hfits
    cases h
    exact .inl ⟨by simpa using hfits, rfl⟩
  · split at h
    · rename_i id hneg
      cases h
      exact .inr ⟨id, hneg, rfl⟩
    · cases h

theorem check_ne_fault (g : Graph) (o : WorkOrder) (f : Fault) :
    g.check o ≠ .error (.fault f) := by
  rw [check]
  split
  · exact nofun
  · split <;> exact nofun

/-- A draft is made of both passes. -/
theorem draft_eq_ok {g : Graph} {o : WorkOrder} {t : Timetable} (h : g.draft o = .ok t) :
    (o.fits g = true ∧ g.negative? o.ids = none) ∧
      ∃ early late, forwardPass g [] o.ids = .ok early ∧ t.total = totalDuration g early ∧
        backwardPass g t.total early = some late ∧
        late.mapM (Late.timing? g early t.total) = some t.timings ∧
        sumDurations (t.timings.map Timing.slack) = some t.slackTime := by
  rw [draft] at h
  obtain ⟨_, hcheck, h⟩ := bind_eq_ok.1 h
  obtain ⟨early, hearly, h⟩ := bind_eq_ok.1 h
  obtain ⟨late, hlate, h⟩ := bind_eq_ok.1 h
  obtain ⟨timings, htimings, h⟩ := bind_eq_ok.1 h
  obtain ⟨slackTime, hslackTime, h⟩ := bind_eq_ok.1 h
  cases h
  exact ⟨check_eq_ok hcheck, early, late, ofExcept_eq_ok.1 hearly, rfl,
    orFault_eq_ok.1 hlate, orFault_eq_ok.1 htimings, orFault_eq_ok.1 hslackTime⟩

/-- The only fault of a draft is a duration out of range. -/
theorem draft_eq_fault {g : Graph} {o : WorkOrder} {f : Fault}
    (h : g.draft o = .error (.fault f)) : f = .durationRange := by
  have hrange : ∀ {α : Type} {x : Option α},
      (orFault .durationRange x : Outcome ScheduleError α) = .error (.fault f) →
        f = .durationRange := by
    intro α x hx
    obtain ⟨-, hf⟩ := orFault_eq_error.1 hx
    cases hf
    rfl
  rw [draft] at h
  rcases bind_eq_error.1 h with h | ⟨_, -, h⟩
  · exact absurd h (g.check_ne_fault o f)
  rcases bind_eq_error.1 h with h | ⟨_, -, h⟩
  · obtain ⟨_, -, h⟩ := ofExcept_eq_error.1 h
    cases h
  rcases bind_eq_error.1 h with h | ⟨_, -, h⟩
  · exact hrange h
  rcases bind_eq_error.1 h with h | ⟨_, -, h⟩
  · exact hrange h
  rcases bind_eq_error.1 h with h | ⟨_, -, h⟩
  · exact hrange h
  · cases h

/-- What a timetable can be refused for. -/
theorem timetable_eq_refused {g : Graph} {o : WorkOrder} {e : ScheduleError}
    (h : g.timetable o = .error (.refused e)) :
    (o.fits g = false ∧ e = .orderMismatch g.contractId ∨
      ∃ id, g.negative? o.ids = some id ∧ e = .negativeDuration id (g.duration id).seconds) ∨
      ∃ id, e = .overflow id := by
  have hfault : ∀ {α : Type} {f : Fault} {x : Option α},
      (orFault f x : Outcome ScheduleError α) ≠ .error (.refused e) := by
    intro α f x hx
    cases (orFault_eq_error.1 hx).2
  rw [timetable_eq] at h
  rcases bind_eq_error.1 h with h | ⟨t, -, h⟩
  · rw [draft] at h
    rcases bind_eq_error.1 h with h | ⟨_, -, h⟩
    · exact .inl (check_eq_refused h)
    rcases bind_eq_error.1 h with h | ⟨_, -, h⟩
    · obtain ⟨e', he', h⟩ := ofExcept_eq_error.1 h
      cases h
      exact .inr (forwardPass_eq_error he')
    rcases bind_eq_error.1 h with h | ⟨_, -, h⟩
    · exact absurd h hfault
    rcases bind_eq_error.1 h with h | ⟨_, -, h⟩
    · exact absurd h hfault
    rcases bind_eq_error.1 h with h | ⟨_, -, h⟩
    · exact absurd h hfault
    · cases h
  · rw [Timetable.traced] at h
    rcases bind_eq_error.1 h with h | ⟨_, -, h⟩
    · exact absurd h hfault
    rcases bind_eq_error.1 h with h | ⟨_, -, h⟩
    · exact absurd h hfault
    split at h <;> cases h
/-! ## A draft solves the equations -/

/-- A timing joins the entries of both passes. -/
theorem timing?_eq_some {g : Graph} {early : List Early} {total : Duration} {l : Late}
    {x : Timing} (h : l.timing? g early total = some x) :
    ∃ slack freeSlack : Duration, slack.nanos = l.start.nanos - l.early.start.nanos ∧
      freeSlack.nanos =
        ((Duration.minimum? ((g.dependents l.early.id).map (startOf early))).getD total).nanos -
          l.early.finish.nanos ∧
      x = ⟨l.early.id, l.early.duration, l.early.start, l.early.finish, l.start, l.finish, slack,
        freeSlack⟩ := by
  obtain ⟨slack, hslack, h⟩ := Option.bind_eq_some_iff.1 h
  obtain ⟨freeSlack, hfreeSlack, h⟩ := Option.bind_eq_some_iff.1 h
  cases h
  exact ⟨slack, freeSlack, Duration.sub?_eq_some_iff.1 hslack,
    Duration.sub?_eq_some_iff.1 hfreeSlack, rfl⟩

/-- The lists of both passes along a sequence, and the timetable that joins them. -/
structure Joined (g : Graph) (early : List Early) (late : List Late) (t : Timetable) :
    Prop where
  isSequence : g.IsSequence t.ids
  early_ids : early.map Early.id = t.ids
  late_early : late.map Late.early = early
  followsFrom_early : ∀ e ∈ early, e.FollowsFrom g early
  followsFrom_late : ∀ l ∈ late, l.FollowsFrom g t.total late
  timings_eq : late.mapM (Late.timing? g early t.total) = some t.timings

/-- Both passes along a sequence, put together. -/
theorem joined_of_passes {g : Graph} (hg : g.Linked) {ids : List MilestoneId}
    (hids : g.IsSequence ids) {early : List Early} {late : List Late} {t : Timetable}
    (hforward : forwardPass g [] ids = .ok early)
    (hbackward : backwardPass g t.total early = some late)
    (hjoin : late.mapM (Late.timing? g early t.total) = some t.timings) :
    t.ids = ids ∧ g.Joined early late t := by
  obtain ⟨hearly, hfollows⟩ := hids.followsFrom_early hforward
  have hseq : g.IsSequence (early.map Early.id) := hearly.symm ▸ hids
  obtain ⟨hlate, hfollows'⟩ := hseq.followsFrom_late hg hbackward
  have hown : t.ids = early.map Early.id := by
    rw [← hlate, List.map_map]
    refine map_eq_of_mapM (fun l x hx => ?_) hjoin
    obtain ⟨_, _, -, -, rfl⟩ := timing?_eq_some hx
    rfl
  exact ⟨hown.trans hearly, ⟨hown.symm ▸ hseq, hown.symm, hlate, hfollows, hfollows', hjoin⟩⟩

theorem joined_of_draft {g : Graph} (hg : g.Linked) {o : WorkOrder} (ho : g.IsSequence o.ids)
    {t : Timetable} (h : g.draft o = .ok t) :
    t.ids = o.ids ∧ g.negative? o.ids = none ∧
      ∃ early late, g.Joined early late t ∧ t.total = totalDuration g early := by
  obtain ⟨⟨-, hneg⟩, early, late, hforward, htotal, hbackward, hjoin, -⟩ := draft_eq_ok h
  obtain ⟨hids, hjoined⟩ := joined_of_passes hg ho hforward hbackward hjoin
  exact ⟨hids, hneg, early, late, hjoined, htotal⟩

namespace Joined

variable {g : Graph} {early : List Early} {late : List Late} {t : Timetable}
  (h : g.Joined early late t)
include h

/-- The entries of a milestone are those that its timing joins. -/
theorem exists_late {m : MilestoneId} (hm : g.contains m = true) :
    ∃ l ∈ late, l.early ∈ early ∧ l.early.id = m ∧
      ∃ x, t.timing? m = some x ∧ l.timing? g early t.total = some x := by
  obtain ⟨x, hx⟩ := Timetable.exists_timing? ((h.isSequence.mem_iff m).2 hm)
  obtain ⟨hmem, rfl⟩ := (Timetable.timing?_eq_some_iff h.isSequence.nodup).1 hx
  obtain ⟨l, hl, hlx⟩ := exists_of_mem_mapM h.timings_eq hmem
  obtain ⟨_, _, -, -, rfl⟩ := timing?_eq_some hlx
  refine ⟨l, hl, ?_, rfl, _, hx, hlx⟩
  rw [← h.late_early]
  exact List.mem_map_of_mem hl

/-- The entry of a milestone is found among the earliest times. -/
theorem find?_early {e : Early} (he : e ∈ early) :
    (early.find? fun e' => e'.id == e.id) = some e := by
  refine (find?_key_eq_some_iff ?_).2 ⟨he, rfl⟩
  rw [h.early_ids]
  exact h.isSequence.nodup

/-- The entry of a milestone is found among the latest times. -/
theorem find?_late {l : Late} (hl : l ∈ late) :
    (late.find? fun l' => l'.early.id == l.early.id) = some l := by
  have hids : late.map (fun l => l.early.id) = t.ids := by
    rw [← h.early_ids, ← h.late_early, List.map_map]
    rfl
  refine (find?_key_eq_some_iff ?_).2 ⟨hl, rfl⟩
  rw [hids]
  exact h.isSequence.nodup

theorem finishOf_eq {m : MilestoneId} (hm : g.contains m = true) :
    finishOf early m = t.earliestFinish m := by
  obtain ⟨l, -, he, rfl, x, hx, hlx⟩ := h.exists_late hm
  obtain ⟨_, _, -, -, rfl⟩ := timing?_eq_some hlx
  rw [finishOf, h.find?_early he, Timetable.earliestFinish, Timetable.offset_eq hx]
  rfl

theorem startOf_eq {m : MilestoneId} (hm : g.contains m = true) :
    startOf early m = t.earliestStart m := by
  obtain ⟨l, -, he, rfl, x, hx, hlx⟩ := h.exists_late hm
  obtain ⟨_, _, -, -, rfl⟩ := timing?_eq_some hlx
  rw [startOf, h.find?_early he, Timetable.earliestStart, Timetable.offset_eq hx]
  rfl

theorem latestStartOf_eq {m : MilestoneId} (hm : g.contains m = true) :
    latestStartOf late m = t.latestStart m := by
  obtain ⟨l, hl, -, rfl, x, hx, hlx⟩ := h.exists_late hm
  obtain ⟨_, _, -, -, rfl⟩ := timing?_eq_some hlx
  rw [latestStartOf, h.find?_late hl, Timetable.latestStart, Timetable.offset_eq hx]
  rfl

/-- The latest of the earliest finishes, by milestone. -/
theorem totalDuration_eq :
    totalDuration g early = (Duration.maximum? ((t.ids.filter fun m =>
      (g.dependents m).isEmpty).map t.earliestFinish)).getD .zero := by
  rw [← h.early_ids, List.filter_map, List.map_map]
  refine congrArg (fun ds => (Duration.maximum? ds).getD .zero) (List.map_congr_left ?_)
  intro e he
  have hmem : e ∈ early := (List.mem_filter.1 he).1
  have hm : g.contains e.id = true := by
    rw [← h.isSequence.mem_iff, ← h.early_ids]
    exact List.mem_map_of_mem hmem
  rw [Function.comp_apply, ← h.finishOf_eq hm, finishOf, h.find?_early hmem]
  rfl

end Joined

/-- What is equal at all prerequisites or dependents of a milestone. -/
theorem map_congr_of_contains {g : Graph} {f f' : MilestoneId → Duration}
    (hf : ∀ {m}, g.contains m = true → f m = f' m) {ids : List MilestoneId}
    (hids : ∀ m ∈ ids, g.contains m = true) : ids.map f = ids.map f' :=
  List.map_congr_left fun m hm => hf (hids m hm)

/-- The offsets of both passes solve the equations. -/
theorem Joined.timed {g : Graph} {early : List Early} {late : List Late} {t : Timetable}
    (hjoined : g.Joined early late t) (hg : g.Linked) (hneg : g.negative? t.ids = none)
    (htotal : t.total = totalDuration g early) : g.Timed t := by
  have hpre : ∀ m, ∀ p ∈ g.prerequisites m, g.contains p = true := fun m p hp =>
    (hg.contains_of_mem_prerequisites hp).1
  have hdep : ∀ m, ∀ b ∈ g.dependents m, g.contains b = true := fun m b hb =>
    (hg.contains_of_mem_dependents hb).2
  refine
    { isSequence := hjoined.isSequence
      zero_le_duration := fun {m} hm => ?_
      duration_eq := fun {m} hm => ?_
      earliestStart_eq := fun {m} hm => ?_
      earliestFinish_eq := fun {m} hm => ?_
      latestFinish_eq := fun {m} hm => ?_
      latestStart_eq := fun {m} hm => ?_
      slack_eq := fun {m} hm => ?_
      freeSlack_eq := fun {m} hm => ?_
      total_eq := htotal.trans hjoined.totalDuration_eq }
  · have hnot := List.find?_eq_none.1 hneg m ((hjoined.isSequence.mem_iff m).2 hm)
    simpa [Duration.lt_iff, Duration.zero] using hnot
  all_goals
    obtain ⟨l, hl, he, rfl, x, hx, hlx⟩ := hjoined.exists_late hm
    obtain ⟨slack, freeSlack, hslack, hfreeSlack, rfl⟩ := timing?_eq_some hlx
    have hearly := hjoined.followsFrom_early l.early he
    have hlate := hjoined.followsFrom_late l hl
    simp only [Timetable.earliestStart, Timetable.earliestFinish, Timetable.latestStart,
      Timetable.latestFinish, Timetable.slack, Timetable.freeSlack, Timetable.offset_eq hx]
  · exact hearly.duration_eq
  · rw [hearly.start_eq, map_congr_of_contains hjoined.finishOf_eq (hpre _)]
    rfl
  · rw [hearly.finish_eq, hearly.duration_eq]
  · rw [hlate.finish_eq, map_congr_of_contains hjoined.latestStartOf_eq (hdep _)]
    rfl
  · rw [hlate.start_eq, hearly.duration_eq]
  · exact hslack
  · rw [hfreeSlack, map_congr_of_contains hjoined.startOf_eq (hdep _)]
    rfl

/-- The offsets of a draft solve the equations. -/
theorem timed_of_draft {g : Graph} (hg : g.Linked) {o : WorkOrder} (ho : g.IsSequence o.ids)
    {t : Timetable} (h : g.draft o = .ok t) : g.Timed t := by
  obtain ⟨hids, hneg, early, late, hjoined, htotal⟩ := joined_of_draft hg ho h
  exact hjoined.timed hg (hids.symm ▸ hneg) htotal

/-! ## Schedules -/

/-- Tracing adds the critical chain and nothing else. -/
theorem traced_eq_ok {g : Graph} {t t' : Timetable} (h : t.traced g = .ok t') :
    ∃ chain, criticalChain? g t.timings t.total = some chain ∧
      t' = { t with criticalPathDuration := t.total, criticalChain := chain } := by
  rw [Timetable.traced] at h
  obtain ⟨chain, hchain, h⟩ := bind_eq_ok.1 h
  obtain ⟨length, -, h⟩ := bind_eq_ok.1 h
  split at h
  · rename_i hlength
    cases h
    rw [hlength]
    exact ⟨chain, orFault_eq_ok.1 hchain, rfl⟩
  · cases h

/-- The equations do not speak about the critical chain. -/
theorem Timed.with_chain {g : Graph} {t : Timetable} (h : g.Timed t) (length : Duration)
    (chain : List MilestoneId) :
    g.Timed { t with criticalPathDuration := length, criticalChain := chain } :=
  { h with }

/-- What a computation adds to the timetable are the graph and its order of work. -/
theorem compute_of_workOrder {g : Graph} {o : WorkOrder} (ho : g.workOrder = .ok o) :
    Schedule.compute g = (g.timetable o).map fun t => ⟨g, o, t⟩ := by
  rw [Schedule.compute, ho]
  rfl

/-- A timetable along the order of work makes a schedule. -/
theorem compute_of_timetable {g : Graph} {o : WorkOrder} (ho : g.workOrder = .ok o) {t : Timetable}
    (ht : g.timetable o = .ok t) : Schedule.compute g = .ok ⟨g, o, t⟩ := by
  rw [compute_of_workOrder ho, ht]
  rfl

/-- A schedule is an order of work and a timetable along it. -/
theorem compute_eq_ok {g : Graph} {s : Schedule} (h : Schedule.compute g = .ok s) :
    s.graph = g ∧ g.workOrder = .ok s.order ∧ g.timetable s.order = .ok s.timetable := by
  rw [Schedule.compute] at h
  obtain ⟨o, ho, h⟩ := bind_eq_ok.1 h
  obtain ⟨t, ht, h⟩ := bind_eq_ok.1 h
  cases h
  exact ⟨rfl, ofExcept_eq_ok.1 ho, ht⟩

/-- The order of work of a graph is a sequence. -/
theorem isSequence_of_workOrder {g : Graph} (hg : g.Linked) {o : WorkOrder}
    (h : g.workOrder = .ok o) : g.IsSequence o.ids :=
  (isWorkOrder_of_workOrder hg h).2.isSequence hg

/-- A schedule is refused for a cycle, a negative duration, or a finish out of range. -/
theorem compute_eq_refused {g : Graph} (hg : g.Linked) {e : ScheduleError}
    (h : Schedule.compute g = .error (.refused e)) :
    (∃ r, g.workOrder = .error r ∧ e = .cycle r) ∨
      (∃ id, g.contains id = true ∧ g.duration id < .zero ∧
        e = .negativeDuration id (g.duration id).seconds) ∨
      ∃ id, e = .overflow id := by
  rw [Schedule.compute] at h
  rcases bind_eq_error.1 h with h | ⟨o, ho, h⟩
  · obtain ⟨r, hr, h⟩ := ofExcept_eq_error.1 h
    cases h
    exact .inl ⟨r, hr, rfl⟩
  obtain ⟨hcontract, horder⟩ := isWorkOrder_of_workOrder hg (ofExcept_eq_ok.1 ho)
  rcases bind_eq_error.1 h with h | ⟨_, -, h⟩
  · rcases timetable_eq_refused h with (⟨hfits, -⟩ | ⟨id, hneg, he⟩) | hover
    · rw [(WorkOrder.fits_iff horder.nodup).2 ⟨hcontract, horder.mem_iff⟩] at hfits
      cases hfits
    · have hid := (horder.mem_iff id).1 (List.mem_of_find?_eq_some hneg)
      exact .inr (.inl ⟨id, hid, by simpa using List.find?_some hneg, he⟩)
    · exact .inr (.inr hover)
  · cases h

/-- The timetable of a schedule is a draft with the chain that was traced in it. -/
theorem exists_draft_of_compute {g : Graph} {s : Schedule} (h : Schedule.compute g = .ok s) :
    ∃ t chain, g.draft s.order = .ok t ∧ criticalChain? g t.timings t.total = some chain ∧
      s.timetable = { t with criticalPathDuration := t.total, criticalChain := chain } := by
  obtain ⟨-, -, htimetable⟩ := compute_eq_ok h
  rw [timetable_eq] at htimetable
  obtain ⟨t, ht, htraced⟩ := bind_eq_ok.1 htimetable
  obtain ⟨chain, hchain, heq⟩ := traced_eq_ok htraced
  exact ⟨t, chain, ht, hchain, heq⟩

/-- The offsets of a schedule solve the equations. -/
theorem timed_of_compute {g : Graph} (hg : g.Linked) {s : Schedule}
    (h : Schedule.compute g = .ok s) : g.Timed s.timetable := by
  obtain ⟨-, horder, -⟩ := compute_eq_ok h
  obtain ⟨t, chain, ht, -, heq⟩ := exists_draft_of_compute h
  rw [heq]
  exact (timed_of_draft hg (isSequence_of_workOrder hg horder) ht).with_chain _ _

/-- A timetable goes through the milestones in the order of work. -/
theorem ids_of_compute {g : Graph} (hg : g.Linked) {s : Schedule}
    (h : Schedule.compute g = .ok s) : s.timetable.ids = s.order.ids := by
  obtain ⟨-, horder, -⟩ := compute_eq_ok h
  obtain ⟨t, chain, ht, -, heq⟩ := exists_draft_of_compute h
  rw [heq]
  exact (joined_of_draft hg (isSequence_of_workOrder hg horder) ht).1

/-- The critical chain of a schedule was traced in its timetable. -/
theorem chain_of_compute {g : Graph} {s : Schedule} (h : Schedule.compute g = .ok s) :
    criticalChain? g s.timetable.timings s.timetable.total = some s.timetable.criticalChain ∧
      s.timetable.criticalPathDuration = s.timetable.total := by
  obtain ⟨t, chain, -, hchain, heq⟩ := exists_draft_of_compute h
  rw [heq]
  exact ⟨hchain, rfl⟩

/-! ## The schedule of a fork -/

/-- The second milestone can slip a little, the gate as far as the schedule goes. -/
def forkTimetable : Timetable :=
  { contractId := 1
    timings :=
      [⟨2, 3, 0, 3, 2, 5, 2, 2⟩, ⟨4, 0, 0, 0, 7, 7, 7, 7⟩, ⟨1, 5, 0, 5, 0, 5, 0, 0⟩,
        ⟨3, 2, 5, 7, 5, 7, 0, 0⟩]
    total := 7
    criticalPathDuration := 7
    slackTime := 9
    criticalChain := [1, 3] }

theorem compute_fork : ∃ s, Schedule.compute fork = .ok s ∧ s.timetable = forkTimetable := by
  have hok : Schedule.compute fork = .ok ⟨fork, ⟨1, [2, 4, 1, 3]⟩, forkTimetable⟩ := by cbv
  exact ⟨_, hok, rfl⟩

end Graph

end Milestones
