import Milestones.Proofs.Graph.Order
import Milestones.Proofs.Table
import Milestones.Proofs.Time.Duration
import Milestones.Schedule.Timetable

/-!
# The two passes over an order of work

The forward pass adds to the end of what is known, the backward pass to its front, and neither
changes an entry once it is made.  An entry is computed while the list is still short.  Along an
order that puts prerequisites first it nevertheless follows from the whole list, because all that
it looks up is known by then.

## Main definitions

* `Graph.IsSequence`: the orders along which the passes work.
* `Early.FollowsFrom`, `Late.FollowsFrom`: an entry is computed from those of its neighbours.

## Main statements

* `forwardPass_eq_ok`, `backwardPass_eq_some`: what the passes compute along any order.
* `Graph.IsSequence.forward_induction`, `Graph.IsSequence.backward_induction`: from a milestone's
  prerequisites, or from its dependents, to the milestone.
* `Graph.IsSequence.followsFrom_early`, `Graph.IsSequence.followsFrom_late`: along a sequence the
  entries follow from the finished list.
-/

namespace Milestones

/-! ## Sequences -/

/-- Every milestone once, each after its prerequisites. -/
structure Graph.IsSequence (g : Graph) (ids : List MilestoneId) : Prop where
  nodup : ids.Nodup
  mem_iff : ∀ id, id ∈ ids ↔ g.contains id = true
  mem_of_mem_prerequisites : ∀ before id after, ids = before ++ id :: after →
    ∀ p ∈ g.prerequisites id, p ∈ before

/-- An order of work is such a sequence. -/
theorem Graph.IsWorkOrder.isSequence {g : Graph} (hg : g.Linked) {ids : List MilestoneId}
    (h : g.IsWorkOrder ids) : g.IsSequence ids := by
  refine ⟨h.nodup, h.mem_iff, ?_⟩
  intro before id after hids p hp
  have hnext := h.isNext before id after hids
  exact hnext.eligible.mem_of_leads p (hg.leads_of_mem_prerequisites hp)

namespace Graph.IsSequence

variable {g : Graph} {ids : List MilestoneId} (h : g.IsSequence ids)
include h

/-- What a milestone holds up comes after it. -/
theorem mem_of_mem_dependents (hg : g.Linked) {before after : List MilestoneId}
    {id : MilestoneId} (hids : ids = before ++ id :: after) {b : MilestoneId}
    (hb : b ∈ g.dependents id) : b ∈ after := by
  have hpre : id ∈ g.prerequisites b := hg.mem_dependents_iff_mem_prerequisites.1 hb
  have hin : b ∈ ids := (h.mem_iff b).2 (hg.contains_of_mem_dependents hb).2
  have hnodup := h.nodup
  rw [hids] at hnodup
  have hout : id ∉ before := fun hid =>
    List.disjoint_of_nodup_append hnodup hid List.mem_cons_self
  rw [hids, List.mem_append, List.mem_cons] at hin
  rcases hin with hin | rfl | hin
  · -- The milestone would stand before its own place, among the prerequisites of `b`.
    obtain ⟨front, back, rfl⟩ := List.append_of_mem hin
    rw [List.append_assoc, List.cons_append] at hids
    have := h.mem_of_mem_prerequisites front b _ hids id hpre
    exact absurd (List.mem_append_left _ this) hout
  · exact absurd (h.mem_of_mem_prerequisites before b after hids b hpre) hout
  · exact hin

/-- What passes from the prerequisites to a milestone holds everywhere. -/
theorem forward_induction {P : MilestoneId → Prop}
    (step : ∀ id, g.contains id = true → (∀ p ∈ g.prerequisites id, P p) → P id)
    {id : MilestoneId} (hid : g.contains id = true) : P id := by
  have hprefix : ∀ before after, ids = before ++ after → ∀ x ∈ before, P x := by
    intro before
    induction before using List.reverseRecOn with
    | nil => exact fun _ _ _ hx => absurd hx List.not_mem_nil
    | append_singleton before x ih =>
      intro after hids y hy
      rw [List.append_assoc, List.singleton_append] at hids
      rcases List.mem_append.1 hy with hy | hy
      · exact ih _ hids y hy
      · cases List.mem_singleton.1 hy
        have hx : x ∈ ids := by rw [hids]; simp
        refine step x ((h.mem_iff x).1 hx) fun p hp => ?_
        exact ih _ hids p (h.mem_of_mem_prerequisites before x after hids p hp)
  exact hprefix ids [] (by simp) id ((h.mem_iff id).2 hid)

/-- What passes from the dependents to a milestone holds everywhere. -/
theorem backward_induction (hg : g.Linked) {P : MilestoneId → Prop}
    (step : ∀ id, g.contains id = true → (∀ b ∈ g.dependents id, P b) → P id)
    {id : MilestoneId} (hid : g.contains id = true) : P id := by
  have hsuffix : ∀ after before, ids = before ++ after → ∀ x ∈ after, P x := by
    intro after
    induction after with
    | nil => exact fun _ _ _ hx => absurd hx List.not_mem_nil
    | cons x after ih =>
      intro before hids y hy
      have hrest : ids = (before ++ [x]) ++ after := by rw [hids, List.append_cons]
      rcases List.mem_cons.1 hy with rfl | hy
      · have hx : y ∈ ids := by rw [hids]; simp
        refine step y ((h.mem_iff y).1 hx) fun b hb => ?_
        exact ih _ hrest b (h.mem_of_mem_dependents hg hids hb)
      · exact ih _ hrest y hy
  exact hsuffix ids [] rfl id ((h.mem_iff id).2 hid)

end Graph.IsSequence

/-- Along milestones that are all different, an order fits a graph exactly if it is about the
milestones of the graph. -/
theorem WorkOrder.fits_iff {g : Graph} {o : WorkOrder} (ho : o.ids.Nodup) :
    o.fits g = true ↔ o.contractId = g.contractId ∧ ∀ id, id ∈ o.ids ↔ g.contains id = true := by
  have hids : ∀ id, id ∈ g.nodes.ids ↔ g.contains id = true := fun id => Table.contains_iff.symm
  simp only [fits, Bool.and_eq_true, beq_iff_eq, List.all_eq_true, and_assoc]
  refine and_congr_right fun _ => ?_
  constructor
  · rintro ⟨hlength, hall⟩ id
    have hsub : o.ids ⊆ g.nodes.ids := fun id hid => (hids id).2 (hall id hid)
    have hperm : o.ids.Perm g.nodes.ids := by
      refine (ho.subperm hsub).perm_of_length_le (Nat.le_of_eq ?_)
      rw [hlength, Table.ids, List.length_map]
      rfl
    rw [hperm.mem_iff, hids]
  · intro hmem
    have hperm : o.ids.Perm g.nodes.ids := by
      refine (List.perm_ext_iff_of_nodup ho g.nodes.nodup_ids).2 fun id => ?_
      rw [hmem, hids]
    refine ⟨?_, fun id hid => (hmem id).1 hid⟩
    rw [hperm.length_eq, Table.ids, List.length_map]
    rfl

/-! ## The forward pass -/

/-- The earliest times of a milestone follow from when its prerequisites finish. -/
structure Early.FollowsFrom (g : Graph) (known : List Early) (e : Early) : Prop where
  duration_eq : e.duration = g.duration e.id
  start_eq : e.start =
    (Duration.maximum? ((g.prerequisites e.id).map (finishOf known))).getD .zero
  finish_eq : e.finish.nanos = e.start.nanos + e.duration.nanos

/-- Along any order, each entry follows from those made before it. -/
theorem forwardPass_eq_ok {g : Graph} {known early : List Early} {ids : List MilestoneId}
    (h : forwardPass g known ids = .ok early) :
    ∃ new, early = known ++ new ∧ new.map Early.id = ids ∧
      ∀ before e after, new = before ++ e :: after → e.FollowsFrom g (known ++ before) := by
  induction ids generalizing known with
  | nil =>
    cases h
    refine ⟨[], (List.append_nil _).symm, rfl, fun before e after hsplit => ?_⟩
    simp at hsplit
  | cons id rest ih =>
    simp only [forwardPass] at h
    split at h
    · cases h
    · rename_i finish hfinish
      obtain ⟨new, hearly, hids, hnew⟩ := ih h
      refine ⟨_ :: new, hearly.trans (List.append_cons _ _ _).symm, ?_, ?_⟩
      · rw [List.map_cons, hids]
      · intro before e after hsplit
        cases before with
        | nil =>
          cases (List.cons.inj hsplit).1
          rw [List.append_nil]
          exact ⟨rfl, rfl, Duration.add?_eq_some_iff.1 hfinish⟩
        | cons first before =>
          obtain ⟨rfl, hrest⟩ := List.cons.inj hsplit
          rw [List.append_cons]
          exact hnew before e after hrest

/-- The forward pass refuses nothing but a finish out of range. -/
theorem forwardPass_eq_error {g : Graph} {known : List Early} {ids : List MilestoneId}
    {e : ScheduleError} (h : forwardPass g known ids = .error e) : ∃ id, e = .overflow id := by
  induction ids generalizing known with
  | nil => cases h
  | cons id rest ih =>
    simp only [forwardPass] at h
    split at h
    · cases h
      exact ⟨id, rfl⟩
    · exact ih h

/-- What is found in the front part of a list of entries is found in the list. -/
theorem finishOf_append {known : List Early} {id : MilestoneId} (hid : id ∈ known.map Early.id)
    (rest : List Early) : finishOf (known ++ rest) id = finishOf known id := by
  obtain ⟨e, he⟩ := exists_find?_key hid
  rw [finishOf, finishOf, List.find?_append, he, Option.some_or]

/-- Along a sequence, each entry follows from the finished list. -/
theorem Graph.IsSequence.followsFrom_early {g : Graph} {ids : List MilestoneId}
    (hids : g.IsSequence ids) {early : List Early} (h : forwardPass g [] ids = .ok early) :
    early.map Early.id = ids ∧ ∀ e ∈ early, e.FollowsFrom g early := by
  obtain ⟨new, rfl, hmap, hnew⟩ := forwardPass_eq_ok h
  refine ⟨hmap, fun e he => ?_⟩
  obtain ⟨before, after, hsplit⟩ := List.append_of_mem he
  have hfollows : e.FollowsFrom g before := hnew before e after hsplit
  have hplace : ids = before.map Early.id ++ e.id :: after.map Early.id := by
    rw [← hmap, hsplit, List.map_append, List.map_cons]
  refine ⟨hfollows.duration_eq, ?_, hfollows.finish_eq⟩
  rw [hfollows.start_eq, hsplit]
  refine congrArg (fun ds => (Duration.maximum? ds).getD .zero) (List.map_congr_left ?_)
  intro p hp
  exact (finishOf_append (hids.mem_of_mem_prerequisites _ _ _ hplace p hp) _).symm

/-! ## The backward pass -/

/-- The latest times of a milestone follow from when its dependents have to start. -/
structure Late.FollowsFrom (g : Graph) (total : Duration) (known : List Late) (l : Late) :
    Prop where
  finish_eq : l.finish =
    (Duration.minimum? ((g.dependents l.early.id).map (latestStartOf known))).getD total
  start_eq : l.start.nanos = l.finish.nanos - l.early.duration.nanos

/-- Along any order, each entry follows from those after it. -/
theorem backwardPass_eq_some {g : Graph} {total : Duration} {early : List Early}
    {late : List Late} (h : backwardPass g total early = some late) :
    late.map Late.early = early ∧
      ∀ before l after, late = before ++ l :: after → l.FollowsFrom g total after := by
  induction early generalizing late with
  | nil =>
    cases h
    refine ⟨rfl, fun before l after hsplit => ?_⟩
    simp at hsplit
  | cons e rest ih =>
    obtain ⟨later, hlater, h⟩ := Option.bind_eq_some_iff.1 h
    obtain ⟨start, hstart, h⟩ := Option.bind_eq_some_iff.1 h
    cases h
    obtain ⟨hmap, hfollows⟩ := ih hlater
    refine ⟨by rw [List.map_cons, hmap], fun before l after hsplit => ?_⟩
    cases before with
    | nil =>
      obtain ⟨rfl, rfl⟩ := List.cons.inj hsplit
      exact ⟨rfl, Duration.sub?_eq_some_iff.1 hstart⟩
    | cons first before => exact hfollows before l after (List.cons.inj hsplit).2

/-- What is not in the front part of a list of entries is found in the rest. -/
theorem latestStartOf_append {known : List Late} {id : MilestoneId}
    (hid : id ∉ known.map fun l => l.early.id) (rest : List Late) :
    latestStartOf (known ++ rest) id = latestStartOf rest id := by
  rw [latestStartOf, latestStartOf, find?_key_append hid]

/-- Along a sequence, each entry follows from the finished list. -/
theorem Graph.IsSequence.followsFrom_late {g : Graph} (hg : g.Linked)
    {early : List Early} (hids : g.IsSequence (early.map Early.id)) {total : Duration}
    {late : List Late} (h : backwardPass g total early = some late) :
    late.map Late.early = early ∧ ∀ l ∈ late, l.FollowsFrom g total late := by
  obtain ⟨hmap, hlate⟩ := backwardPass_eq_some h
  refine ⟨hmap, fun l hl => ?_⟩
  obtain ⟨before, after, hsplit⟩ := List.append_of_mem hl
  have hfollows : l.FollowsFrom g total after := hlate before l after hsplit
  have hplace : early.map Early.id = (before.map fun l => l.early.id) ++
      l.early.id :: after.map fun l => l.early.id := by
    rw [← hmap, hsplit, List.map_map, List.map_append, List.map_cons]
    rfl
  refine ⟨?_, hfollows.start_eq⟩
  rw [hfollows.finish_eq, hsplit, List.append_cons]
  refine congrArg (fun ds => (Duration.minimum? ds).getD total) (List.map_congr_left ?_)
  intro b hb
  have hafter := hids.mem_of_mem_dependents hg hplace hb
  have hnodup := hids.nodup
  rw [hplace, List.append_cons] at hnodup
  refine (latestStartOf_append ?_ _).symm
  rw [List.map_append, List.map_singleton]
  exact fun hbefore => List.disjoint_of_nodup_append hnodup hbefore hafter

end Milestones
