import Milestones.Proofs.Graph.Listing
import Milestones.Proofs.Schedule.Timetable
import Milestones.Proofs.Time.Instant
import Milestones.Report.Overdue
import Milestones.Schedule.Timeline

/-!
# A schedule on the calendar

An offset has a date as far as the calendar goes.  The rows of a timeline, the due dates and the
projected end each add their own offsets to the anchor, and nevertheless agree on what has a date:
no offset of a milestone is negative or greater than its latest finish, so the latest finish alone
decides about a row, and the milestone that finishes last finishes at the total.

## Main definitions

* `Instant.HasDate`: the calendar reaches a span beyond an instant.
* `Timing.Within`: the offsets of a milestone, in order and within the total.
* `Timeline.Anchored`: what the rows of a timeline say.

## Main statements

* `Timing.Within.exists_at?_iff`: the latest finish decides whether there are dates.
* `Graph.timeline_anchored`: the dates of a schedule.
-/

namespace Milestones

/-! ## Dates -/

namespace Instant

variable {t : Instant} {d d' : Duration}

/-- The calendar reaches an instant a span later. -/
def HasDate (t : Instant) (d : Duration) : Prop := t.unixNanos + d.nanos < calendarEnd

theorem exists_add?_iff (hd : 0 ≤ d.nanos) : (∃ u, t.add? d = some u) ↔ t.HasDate d := by
  rw [← Option.ne_none_iff_exists', Ne, add?_eq_none_iff hd, HasDate, Int.not_le]

/-- What is between an instant and a later date has a date. -/
theorem HasDate.mono (h : t.HasDate d') (hle : d.nanos ≤ d'.nanos) : t.HasDate d :=
  Int.lt_of_le_of_lt (Int.add_le_add_left hle _) h

end Instant

namespace Timing

/-- The dates of a milestone are its offsets after the anchor. -/
theorem at?_eq_some_iff {x : Timing} {anchor : Instant} {w : Window} :
    x.at? anchor = some w ↔
      anchor.add? x.earliestStart = some w.earliestStart ∧
        anchor.add? x.earliestFinish = some w.earliestFinish ∧
          anchor.add? x.latestStart = some w.latestStart ∧
            anchor.add? x.latestFinish = some w.latestFinish := by
  simp only [at?, bind, Option.bind_eq_some_iff, Option.some.injEq]
  constructor
  · rintro ⟨_, h₁, _, h₂, _, h₃, _, h₄, rfl⟩
    exact ⟨h₁, h₂, h₃, h₄⟩
  · rintro ⟨h₁, h₂, h₃, h₄⟩
    exact ⟨_, h₁, _, h₂, _, h₃, _, h₄, rfl⟩

/-- No offset is negative or greater than the latest finish, and this is not greater than the
total. -/
structure Within (total : Duration) (x : Timing) : Prop where
  zero_le_earliestStart : 0 ≤ x.earliestStart.nanos
  earliestStart_le : x.earliestStart.nanos ≤ x.earliestFinish.nanos
  earliestFinish_le : x.earliestFinish.nanos ≤ x.latestFinish.nanos
  zero_le_latestStart : 0 ≤ x.latestStart.nanos
  latestStart_le : x.latestStart.nanos ≤ x.latestFinish.nanos
  latestFinish_le : x.latestFinish.nanos ≤ total.nanos

theorem Within.zero_le_latestFinish {total : Duration} {x : Timing} (h : x.Within total) :
    0 ≤ x.latestFinish.nanos :=
  Int.le_trans h.zero_le_latestStart h.latestStart_le

/-- The latest finish decides whether there are dates. -/
theorem Within.exists_at?_iff {total : Duration} {x : Timing} (h : x.Within total)
    {anchor : Instant} : (∃ w, x.at? anchor = some w) ↔ anchor.HasDate x.latestFinish := by
  constructor
  · rintro ⟨w, hw⟩
    exact (Instant.exists_add?_iff h.zero_le_latestFinish).1 ⟨_, (at?_eq_some_iff.1 hw).2.2.2⟩
  · intro hdate
    have hadd : ∀ {d : Duration}, 0 ≤ d.nanos → d.nanos ≤ x.latestFinish.nanos →
        ∃ u, anchor.add? d = some u := fun hd hle =>
      (Instant.exists_add?_iff hd).2 (hdate.mono hle)
    obtain ⟨hstart, hearly, hfinish, hstart', hlate, -⟩ := h
    obtain ⟨t₁, h₁⟩ := hadd hstart (Int.le_trans hearly hfinish)
    obtain ⟨t₂, h₂⟩ := hadd (Int.le_trans hstart hearly) hfinish
    obtain ⟨t₃, h₃⟩ := hadd hstart' hlate
    obtain ⟨t₄, h₄⟩ := hadd (Int.le_trans hstart' hlate) (Int.le_refl _)
    exact ⟨⟨t₁, t₂, t₃, t₄⟩, at?_eq_some_iff.2 ⟨h₁, h₂, h₃, h₄⟩⟩

/-- If the total has a date, all that comes before has one. -/
theorem Within.hasDate {total : Duration} {x : Timing} (h : x.Within total) {anchor : Instant}
    (hdate : anchor.HasDate total) : anchor.HasDate x.latestFinish :=
  hdate.mono h.latestFinish_le

end Timing

namespace Graph.Timed

variable {g : Graph} {t : Timetable} (h : g.Timed t) (hg : g.Linked)
include h hg

theorem within {x : Timing} (hx : x ∈ t.timings) : x.Within t.total := by
  have hm : g.contains x.milestoneId = true :=
    (h.isSequence.mem_iff _).1 (List.mem_map_of_mem hx)
  have hoffset := Timetable.offset_eq
    ((Timetable.timing?_eq_some_iff h.isSequence.nodup).2 ⟨hx, rfl⟩)
  have hzero := h.zero_le_earliestStart hg hm
  have hduration := h.zero_le_duration hm
  have hfinish := h.earliestFinish_eq hm
  have hlate := h.earliestFinish_le_latestFinish hg hm
  have hstart := h.latestStart_eq hm
  have htotal := h.latestFinish_le_total hg hm
  simp only [Timetable.earliestStart, Timetable.earliestFinish, Timetable.latestStart,
    Timetable.latestFinish, hoffset] at hzero hfinish hlate hstart htotal
  constructor <;> omega

/-- Unless the graph is empty, some milestone can finish at the total at the earliest and has to
finish then at the latest. -/
theorem exists_last (hne : t.timings ≠ []) :
    ∃ x ∈ t.timings, x.earliestFinish = t.total ∧ x.latestFinish = t.total := by
  rcases h.exists_sink hg with ⟨hnil, -⟩ | ⟨m, hm, -, hlast⟩
  · exact absurd (List.map_eq_nil_iff.1 hnil) hne
  · obtain ⟨x, hx⟩ := Timetable.exists_timing? ((h.isSequence.mem_iff m).2 hm)
    have hmem := ((Timetable.timing?_eq_some_iff h.isSequence.nodup).1 hx).1
    rw [Timetable.earliestFinish, Timetable.offset_eq hx] at hlast
    have hwithin := h.within hg hmem
    have hlate := hwithin.earliestFinish_le
    rw [hlast] at hlate
    exact ⟨x, hmem, hlast, Duration.ext (Int.le_antisymm hwithin.latestFinish_le hlate)⟩

end Graph.Timed

/-! ## Timelines -/

namespace Timeline

/-- The dates of one kind that stand in the rows of a timeline. -/
def dates (field : Window → Instant) (t : Timeline) : Set Instant :=
  {d | ∃ e ∈ t.entries, ∃ w, e.window = some w ∧ field w = d}

/-- The rows are those of the milestones, once each and in the order of work.  A row has dates
exactly if its latest finish has one, and this is when the milestone is due, unless it has a planned
end.  The projected end is the latest of the dates, provided that all rows have dates. -/
structure Anchored (s : Schedule) (anchor : Instant) (t : Timeline) : Prop where
  isWorkOrder : s.graph.IsWorkOrder (t.entries.map TimelineEntry.milestoneId)
  timing?_eq : ∀ e ∈ t.entries, s.timetable.timing? e.milestoneId = some e.timing
  exists_window_iff : ∀ e ∈ t.entries,
    (∃ w, e.window = some w) ↔ anchor.HasDate e.timing.latestFinish
  latestFinish_eq : ∀ e ∈ t.entries, ∀ w, e.window = some w →
    anchor.IsAfter e.timing.latestFinish.nanos w.latestFinish
  due?_eq : ∀ e ∈ t.entries, ∀ m : Milestone, m.id = e.milestoneId → m.estimatedEnd = none →
    (DueRule.ofTimetable s.timetable (some anchor)).due? m =
      e.window.map fun w => (w.latestFinish, .latestFinish)
  exists_projectedEnd_iff : 0 < s.graph.size →
    ((∃ d, t.projectedEnd = some d) ↔ ∀ e ∈ t.entries, ∃ w, e.window = some w)
  isGreatest_projectedEnd : 0 < s.graph.size → ∀ d, t.projectedEnd = some d →
    IsGreatest (t.dates Window.earliestFinish) d ∧ IsGreatest (t.dates Window.latestFinish) d

variable {s : Schedule} {anchor : Instant} {start : Option Instant}

theorem row?_eq_some {x : Timing} {e : TimelineEntry} (h : row? s start x = some e) :
    e.milestoneId = x.milestoneId ∧ e.timing = x ∧ e.window = start.bind x.at? ∧
      e.parallelWith = s.graph.parallelGroup e.milestoneId := by
  obtain ⟨m, hm, rfl⟩ := Option.map_eq_some_iff.1 h
  exact ⟨Graph.id_of_milestone? hm, rfl, rfl, rfl⟩

/-- A milestone without a planned end is due at its latest finish, if this has a date. -/
theorem due?_of_timing {t : Timetable} {m : Milestone} {x : Timing} (hx : t.timing? m.id = some x)
    (hend : m.estimatedEnd = none) :
    (DueRule.ofTimetable t (some anchor)).due? m =
      (anchor.add? x.latestFinish).map fun d => (d, .latestFinish) := by
  simp only [DueRule.due?, hend, DueRule.ofTimetable, hx, bind, Option.bind_some]
  cases anchor.add? x.latestFinish <;> rfl

/-- Of the dates of a milestone, the latest finish is the one after its latest finish. -/
theorem map_latestFinish_at? {x : Timing} {total : Duration} (hx : x.Within total) :
    (x.at? anchor).map Window.latestFinish = anchor.add? x.latestFinish := by
  cases hw : x.at? anchor with
  | none =>
    have hnone : ¬∃ d, anchor.add? x.latestFinish = some d := fun hdate => by
      obtain ⟨w, hw'⟩ :=
        hx.exists_at?_iff.2 ((Instant.exists_add?_iff hx.zero_le_latestFinish).1 hdate)
      rw [hw] at hw'
      cases hw'
    exact (Option.eq_none_iff_forall_ne_some.2 fun d hd => hnone ⟨d, hd⟩).symm
  | some w => exact (Timing.at?_eq_some_iff.1 hw).2.2.2.symm

/-- A row is made of a timing. -/
theorem mem_entries {e : TimelineEntry} (he : e ∈ (ofSchedule s start).entries) :
    e.timing ∈ s.timetable.timings ∧ e.milestoneId = e.timing.milestoneId ∧
      e.window = start.bind e.timing.at? ∧
        e.parallelWith = s.graph.parallelGroup e.milestoneId := by
  obtain ⟨x, hx, hrow⟩ := List.mem_filterMap.1 he
  obtain ⟨hid, rfl, hwindow, hparallel⟩ := row?_eq_some hrow
  exact ⟨hx, hid, hwindow, hparallel⟩

/-- With an anchor, the dates of a row are those of its timing. -/
theorem window_eq {e : TimelineEntry} (he : e ∈ (ofSchedule s (some anchor)).entries) :
    e.window = e.timing.at? anchor :=
  (mem_entries he).2.2.1

section Rows

variable (start) (ht : s.graph.Timed s.timetable)
include ht

/-- The rows follow the timings. -/
theorem map_timing_entries :
    (ofSchedule s start).entries.map TimelineEntry.timing = s.timetable.timings := by
  have hrow : ∀ x ∈ s.timetable.timings,
      (row? s start x).map TimelineEntry.timing = some x := fun x hx => by
    obtain ⟨m, hm⟩ := Graph.exists_milestone? ((ht.isSequence.mem_iff _).1 (List.mem_map_of_mem hx))
    rw [row?, hm]
    rfl
  change (s.timetable.timings.filterMap (row? s start)).map TimelineEntry.timing = _
  rw [List.map_filterMap, List.filterMap_congr hrow, List.filterMap_some]

/-- A timing has a row. -/
theorem exists_mem_entries {x : Timing} (hx : x ∈ s.timetable.timings) :
    ∃ e ∈ (ofSchedule s start).entries, e.timing = x := by
  rw [← map_timing_entries start ht] at hx
  exact List.mem_map.1 hx

theorem map_milestoneId_entries :
    (ofSchedule s start).entries.map TimelineEntry.milestoneId = s.timetable.ids := by
  rw [Timetable.ids, ← map_timing_entries start ht, List.map_map]
  exact List.map_congr_left fun e he => (mem_entries he).2.1

variable (anchor) (hg : s.graph.Linked)
include hg

/-- If the total has a date, it is the latest of the dates of any kind whose offsets go as far as
the total and no further. -/
theorem isGreatest_dates {field : Window → Instant} {offset : Timing → Duration}
    (hfield : ∀ {x w}, x.at? anchor = some w → anchor.add? (offset x) = some (field w))
    (hle : ∀ x ∈ s.timetable.timings,
      0 ≤ (offset x).nanos ∧ (offset x).nanos ≤ s.timetable.total.nanos)
    (hlast : ∃ x ∈ s.timetable.timings, offset x = s.timetable.total) {d : Instant}
    (hd : anchor.add? s.timetable.total = some d) :
    IsGreatest ((ofSchedule s (some anchor)).dates field) d := by
  constructor
  · obtain ⟨x, hx, htotal⟩ := hlast
    have hwithin := ht.within hg hx
    have hzero : 0 ≤ s.timetable.total.nanos := htotal ▸ (hle x hx).1
    obtain ⟨w, hw⟩ := hwithin.exists_at?_iff.2
      (hwithin.hasDate ((Instant.exists_add?_iff hzero).1 ⟨d, hd⟩))
    obtain ⟨e, he, rfl⟩ := exists_mem_entries (some anchor) ht hx
    refine ⟨e, he, w, (window_eq he).trans hw, Option.some.inj ?_⟩
    rw [← hfield hw, htotal, hd]
  · rintro _ ⟨e, he, w, hw, rfl⟩
    obtain ⟨hzero, hbound⟩ := hle _ (mem_entries he).1
    have hdate := hfield ((window_eq he).symm.trans hw)
    exact Instant.IsAfter.le_of_le hzero hbound (Instant.isAfter_nanos.2 hdate)
      (Instant.isAfter_nanos.2 hd)

variable (hne : s.timetable.timings ≠ [])
include hne

/-- The projected end has a date if all rows have dates: the row that finishes last finishes
then. -/
theorem exists_projectedEnd_iff :
    (∃ d, (ofSchedule s (some anchor)).projectedEnd = some d) ↔
      ∀ e ∈ (ofSchedule s (some anchor)).entries, ∃ w, e.window = some w := by
  obtain ⟨x, hx, -, hlast⟩ := ht.exists_last hg hne
  constructor
  · rintro ⟨d, hd⟩ e he
    have hwithin := ht.within hg (mem_entries he).1
    have hzero : 0 ≤ s.timetable.total.nanos := hlast ▸ (ht.within hg hx).zero_le_latestFinish
    rw [window_eq he]
    exact hwithin.exists_at?_iff.2
      (hwithin.hasDate ((Instant.exists_add?_iff hzero).1 ⟨d, hd⟩))
  · intro hall
    obtain ⟨e, he, rfl⟩ := exists_mem_entries (some anchor) ht hx
    obtain ⟨w, hw⟩ := hall e he
    rw [window_eq he] at hw
    refine ⟨w.latestFinish, ?_⟩
    change anchor.add? s.timetable.total = some w.latestFinish
    rw [← hlast]
    exact (Timing.at?_eq_some_iff.1 hw).2.2.2

/-- The projected end is the latest of the earliest finishes, and of the latest ones. -/
theorem isGreatest_projectedEnd {d : Instant}
    (h : (ofSchedule s (some anchor)).projectedEnd = some d) :
    IsGreatest ((ofSchedule s (some anchor)).dates Window.earliestFinish) d ∧
      IsGreatest ((ofSchedule s (some anchor)).dates Window.latestFinish) d := by
  have hlate : ∀ x ∈ s.timetable.timings,
      0 ≤ x.latestFinish.nanos ∧ x.latestFinish.nanos ≤ s.timetable.total.nanos := fun x hx =>
    ⟨(ht.within hg hx).zero_le_latestFinish, (ht.within hg hx).latestFinish_le⟩
  have hearly : ∀ x ∈ s.timetable.timings,
      0 ≤ x.earliestFinish.nanos ∧ x.earliestFinish.nanos ≤ s.timetable.total.nanos := fun x hx =>
    have hwithin := ht.within hg hx
    ⟨Int.le_trans hwithin.zero_le_earliestStart hwithin.earliestStart_le,
      Int.le_trans hwithin.earliestFinish_le hwithin.latestFinish_le⟩
  obtain ⟨x, hx, hfirst, hlast⟩ := ht.exists_last hg hne
  constructor
  · exact isGreatest_dates anchor ht hg (fun hw => (Timing.at?_eq_some_iff.1 hw).2.1) hearly
      ⟨x, hx, hfirst⟩ h
  · exact isGreatest_dates anchor ht hg (fun hw => (Timing.at?_eq_some_iff.1 hw).2.2.2) hlate
      ⟨x, hx, hlast⟩ h

omit hne

/-- What the rows of a timeline say follows from the equations of its offsets. -/
theorem anchored_of_timed (horder : s.graph.IsWorkOrder s.timetable.ids) :
    (ofSchedule s (some anchor)).Anchored s anchor := by
  have hwithin : ∀ {e}, e ∈ (ofSchedule s (some anchor)).entries →
      e.timing.Within s.timetable.total := fun he => ht.within hg (mem_entries he).1
  have htiming : ∀ {e}, e ∈ (ofSchedule s (some anchor)).entries →
      s.timetable.timing? e.milestoneId = some e.timing := fun he => by
    obtain ⟨hx, hid, -⟩ := mem_entries he
    exact (Timetable.timing?_eq_some_iff ht.isSequence.nodup).2 ⟨hx, hid.symm⟩
  have hnonempty : 0 < s.graph.size → s.timetable.timings ≠ [] := fun hsize hnil => by
    obtain ⟨m, hm⟩ := Graph.exists_contains hsize
    have hid := (ht.isSequence.mem_iff m).2 hm
    rw [Timetable.ids, hnil] at hid
    exact List.not_mem_nil hid
  refine
    { isWorkOrder := (map_milestoneId_entries (some anchor) ht).symm ▸ horder
      timing?_eq := fun e he => htiming he
      exists_window_iff := fun e he => ?_
      latestFinish_eq := fun e he w hw => ?_
      due?_eq := fun e he m hm hnone => ?_
      exists_projectedEnd_iff := fun hsize => exists_projectedEnd_iff anchor ht hg (hnonempty hsize)
      isGreatest_projectedEnd := fun hsize d hd =>
        isGreatest_projectedEnd anchor ht hg (hnonempty hsize) hd }
  · rw [window_eq he]
    exact (hwithin he).exists_at?_iff
  · rw [window_eq he] at hw
    exact Instant.isAfter_nanos.2 (Timing.at?_eq_some_iff.1 hw).2.2.2
  · rw [due?_of_timing (hm ▸ htiming he) hnone, ← map_latestFinish_at? (hwithin he),
      window_eq he, Option.map_map]
    rfl

end Rows

end Timeline

namespace Graph

/-- On the calendar, the rows of a computed schedule, the due dates of its milestones and its
projected end have dates under the same conditions, and agree on them. -/
theorem timeline_anchored {g : Graph} (hg : g.Built) {s : Schedule}
    (h : Schedule.compute g = .ok s) (anchor : Instant) :
    s.graph = g ∧ (Timeline.ofSchedule s (some anchor)).Anchored s anchor := by
  obtain ⟨rfl, horder, -⟩ := compute_eq_ok h
  refine ⟨rfl, Timeline.anchored_of_timed anchor (timed_of_compute hg.linked h) hg.linked ?_⟩
  rw [ids_of_compute hg.linked h]
  exact (isWorkOrder_of_workOrder hg.linked horder).2

/-! ## The last days of the calendar -/

/-- Six nanoseconds before the end of the calendar. -/
def eve : Instant := .onDay 95026236 86399 999999994

/-- The calendar ends before the fork does.  Two of its milestones have to finish before that. -/
theorem timeline_anchored_fork : fork.Built ∧ ∃ s, Schedule.compute fork = .ok s ∧
    (Timeline.ofSchedule s (some eve)).Anchored s eve ∧
      ((Timeline.ofSchedule s (some eve)).entries.map fun e =>
        (e.milestoneId, e.window.isSome)) = [(2, true), (4, false), (1, true), (3, false)] ∧
          (Timeline.ofSchedule s (some eve)).projectedEnd = none := by
  have hbuilt := built_of_ofRecords ofRecords_fork
  have hok : Schedule.compute fork = .ok ⟨fork, ⟨1, [2, 4, 1, 3]⟩, forkTimetable⟩ := by cbv
  exact ⟨hbuilt, _, hok, (timeline_anchored hbuilt hok eve).2, by decide, by decide⟩

end Graph

end Milestones
