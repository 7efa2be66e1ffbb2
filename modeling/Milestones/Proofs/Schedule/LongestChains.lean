import Milestones.Proofs.Schedule.Faults

/-!
# The forward pass measures chains

A milestone finishes no earlier than a chain of prerequisites takes that ends in it, and one of the
chains takes exactly until then.  The forward pass finds the longest chain of one milestone after
the other.  It is stopped by the first one that takes longer than any duration, and by nothing else.

After the forward pass only the slack can go wrong.  So there are four ways in which a timetable
along the order of work of a graph comes out, and it can be said beforehand which one it is.

## Main definitions

* `IsFirst`: the first in a list with a property.
* `Graph.chainLengths`: how long the chains take that end in a milestone.
* `Graph.Outruns`: the longest of them takes longer than any duration.
* `Graph.Measured`: what the forward pass knows of chains.

## Main statements

* `Graph.isGreatest_chainLengths`: the longest chain is made of those of the prerequisites.
* `Graph.forwardPass_ends`: how the forward pass ends.
* `Graph.timetable_ends`: how a timetable along the order of work comes out.
-/

namespace Milestones

open Outcome

/-! ## The first in a list -/

/-- In the list, this is the first with the property. -/
def IsFirst {α : Type} (P : α → Prop) (l : List α) (a : α) : Prop :=
  ∃ before after, l = before ++ a :: after ∧ P a ∧ ∀ x ∈ before, ¬P x

theorem isFirst_nil {α : Type} {P : α → Prop} {a : α} : ¬IsFirst P [] a := by
  rintro ⟨before, after, hl, -⟩
  simp at hl

/-- The first is the head of the list, or the first in the rest if the head has not the property. -/
theorem isFirst_cons {α : Type} {P : α → Prop} {b a : α} {l : List α} :
    IsFirst P (b :: l) a ↔ P b ∧ a = b ∨ ¬P b ∧ IsFirst P l a := by
  constructor
  · rintro ⟨before, after, hl, ha, hbefore⟩
    cases before with
    | nil =>
      cases hl
      exact .inl ⟨ha, rfl⟩
    | cons c before =>
      cases hl
      exact .inr ⟨hbefore b List.mem_cons_self, before, after, rfl, ha,
        fun x hx => hbefore x (List.mem_cons_of_mem b hx)⟩
  · rintro (⟨hb, rfl⟩ | ⟨hb, before, after, rfl, ha, hbefore⟩)
    · exact ⟨[], l, rfl, hb, nofun⟩
    · exact ⟨b :: before, after, rfl, ha, List.forall_mem_cons.2 ⟨hb, hbefore⟩⟩

/-- A search finds the first. -/
theorem IsFirst.find?_eq_some {α : Type} {P : α → Prop} [DecidablePred P] {l : List α} {a : α}
    (h : IsFirst P l a) : l.find? P = some a := by
  obtain ⟨before, after, hl, ha, hbefore⟩ := h
  refine List.find?_eq_some_iff_append.2 ⟨decide_eq_true ha, before, after, hl, fun x hx => ?_⟩
  rw [decide_eq_false (hbefore x hx)]
  rfl

/-- Every milestone of an order has a place in it. -/
theorem WorkOrder.exists_position? {o : WorkOrder} {id : MilestoneId} (h : id ∈ o.ids) :
    ∃ i < o.ids.length, o.position? id = some i := by
  obtain ⟨i, hi⟩ : ∃ i, o.position? id = some i := by
    rw [position?, ← Option.isSome_iff_exists, List.findIdx?_isSome]
    exact List.any_eq_true.2 ⟨id, h, beq_self_eq_true id⟩
  obtain ⟨hlt, -⟩ := List.findIdx?_eq_some_iff_getElem.1 hi
  exact ⟨i, hlt, hi⟩

namespace Graph

/-! ## Chains of prerequisites -/

/-- How many nanoseconds the chains take that end in a milestone, its own duration included.  In a
chain, each milestone is a prerequisite of the next. -/
def chainLengths (g : Graph) (m : MilestoneId) : Set Int :=
  {n | ∃ before, (before ++ [m]).IsChain (fun a b => a ∈ g.prerequisites b) ∧
    n = ((before ++ [m]).map fun x => (g.duration x).nanos).sum}

/-- The longest chain that ends in a milestone takes longer than any duration. -/
def Outruns (g : Graph) (m : MilestoneId) : Prop :=
  ∃ n, IsGreatest (g.chainLengths m) n ∧ (Duration.maxNanos : Int) < n

/-- A chain that ends in a milestone is the milestone alone or goes through a prerequisite. -/
theorem mem_chainLengths_iff {g : Graph} {m : MilestoneId} {n : Int} :
    n ∈ g.chainLengths m ↔ n = (g.duration m).nanos ∨
      ∃ p ∈ g.prerequisites m, ∃ k ∈ g.chainLengths p, n = k + (g.duration m).nanos := by
  have hsum : ∀ before : List MilestoneId,
      ((before ++ [m]).map fun x => (g.duration x).nanos).sum =
        (before.map fun x => (g.duration x).nanos).sum + (g.duration m).nanos := fun before => by
    rw [List.map_append, List.sum_append, List.map_singleton, List.sum_singleton]
  constructor
  · rintro ⟨before, hchain, rfl⟩
    cases before using List.reverseRecOn with
    | nil => exact .inl (List.sum_singleton)
    | append_singleton front p =>
      rw [List.append_assoc] at hchain
      obtain ⟨hfront, hlast⟩ := List.isChain_split.1 hchain
      exact .inr ⟨p, List.isChain_pair.1 hlast, _, ⟨front, hfront, rfl⟩, hsum _⟩
  · rintro (rfl | ⟨p, hp, _, ⟨front, hfront, rfl⟩, rfl⟩)
    · exact ⟨[], List.isChain_singleton m, List.sum_singleton.symm⟩
    · refine ⟨front ++ [p], ?_, (hsum _).symm⟩
      rw [List.append_assoc]
      exact List.isChain_split.2 ⟨hfront, List.isChain_pair.2 hp⟩

section Durations

variable {g : Graph} (hduration : ∀ m, 0 ≤ (g.duration m).nanos)
include hduration

/-- The longest chain that ends in a milestone goes through the prerequisite that finishes last. -/
theorem isGreatest_chainLengths {m : MilestoneId} (finish : MilestoneId → Duration)
    (hfinish : ∀ p ∈ g.prerequisites m, IsGreatest (g.chainLengths p) (finish p).nanos) :
    IsGreatest (g.chainLengths m)
      (((Duration.maximum? ((g.prerequisites m).map finish)).getD .zero).nanos +
        (g.duration m).nanos) := by
  obtain ⟨hbound, hattained⟩ := Duration.maximum?_getD_map (g.prerequisites m) finish .zero
  generalize (Duration.maximum? ((g.prerequisites m).map finish)).getD .zero = start
    at hbound hattained ⊢
  have hstart : 0 ≤ start.nanos := by
    rcases hattained with ⟨-, rfl⟩ | ⟨p, hp, rfl⟩
    · exact Int.le_refl 0
    · exact (hduration p).trans ((hfinish p hp).2 (mem_chainLengths_iff.2 (.inl rfl)))
  constructor
  · rcases hattained with ⟨-, rfl⟩ | ⟨p, hp, rfl⟩
    · exact mem_chainLengths_iff.2 (.inl (Int.zero_add _))
    · exact mem_chainLengths_iff.2 (.inr ⟨p, hp, _, (hfinish p hp).1, rfl⟩)
  · intro n hn
    rcases mem_chainLengths_iff.1 hn with rfl | ⟨p, hp, k, hk, rfl⟩
    · omega
    · have hle : k ≤ (finish p).nanos := (hfinish p hp).2 hk
      have hbefore : (finish p).nanos ≤ start.nanos := hbound p hp
      omega

omit hduration in
theorem outruns_iff {m : MilestoneId} {n : Int} (h : IsGreatest (g.chainLengths m) n) :
    g.Outruns m ↔ (Duration.maxNanos : Int) < n := by
  constructor
  · rintro ⟨k, hk, hlt⟩
    rwa [← hk.unique h]
  · intro hlt
    exact ⟨n, h, hlt⟩

/-! ## The forward pass -/

/-- The forward pass knows the longest chains that end in the milestones behind it. -/
def Measured (g : Graph) (known : List Early) : Prop :=
  ∀ e ∈ known, IsGreatest (g.chainLengths e.id) e.finish.nanos

/-- The forward pass is stopped by a milestone that outruns, and measures any other one. -/
theorem Measured.forwardPass_cons {known : List Early} (h : g.Measured known) {id : MilestoneId}
    (hknown : ∀ p ∈ g.prerequisites id, p ∈ known.map Early.id) (rest : List MilestoneId) :
    (g.Outruns id → forwardPass g known (id :: rest) = .error (.overflow id)) ∧
      (¬g.Outruns id → ∃ e, e.id = id ∧ g.Measured (known ++ [e]) ∧
        forwardPass g known (id :: rest) = forwardPass g (known ++ [e]) rest) := by
  have hgreatest := isGreatest_chainLengths hduration (finishOf known) fun p hp => by
    obtain ⟨e, he⟩ := exists_find?_key (hknown p hp)
    obtain ⟨hmem, rfl⟩ := of_find?_key he
    rw [finishOf, he]
    exact h e hmem
  have hzero := (hduration id).trans (hgreatest.2 (mem_chainLengths_iff.2 (.inl rfl)))
  rw [outruns_iff hgreatest, forwardPass]
  generalize (Duration.maximum? ((g.prerequisites id).map (finishOf known))).getD .zero = start
    at hgreatest hzero ⊢
  cases hfinish : start.add? (g.duration id) with
  | none =>
    have hrange := Duration.ofNanos?_eq_none_iff.1 hfinish
    exact ⟨fun _ => rfl, fun hle => absurd (by omega) hle⟩
  | some finish =>
    have hsum := Duration.add?_eq_some_iff.1 hfinish
    have hrange := finish.natAbs_le
    refine ⟨fun hlt => absurd hlt (by omega), fun _ => ⟨_, rfl, fun e he => ?_, rfl⟩⟩
    rcases List.mem_append.1 he with he | he
    · exact h e he
    · cases List.mem_singleton.1 he
      rwa [← hsum] at hgreatest

/-- Along a sequence, the forward pass is refused for the first milestone that outruns.  Without
one, it gets through. -/
theorem forwardPass_ends {ids : List MilestoneId} (hids : g.IsSequence ids) :
    (∀ m, IsFirst g.Outruns ids m → forwardPass g [] ids = .error (.overflow m)) ∧
      ((∀ m ∈ ids, ¬g.Outruns m) → ∃ early, forwardPass g [] ids = .ok early) := by
  -- The induction is on what is left of the order.  What is known is about the milestones before.
  have hsuffix : ∀ after known, ids = known.map Early.id ++ after → g.Measured known →
      (∀ m, IsFirst g.Outruns after m → forwardPass g known after = .error (.overflow m)) ∧
        ((∀ m ∈ after, ¬g.Outruns m) → ∃ early, forwardPass g known after = .ok early) := by
    intro after
    induction after with
    | nil => exact fun known _ _ => ⟨fun m hm => absurd hm isFirst_nil, fun _ => ⟨known, rfl⟩⟩
    | cons id rest ih =>
      intro known hsplit hknown
      obtain ⟨hstop, hnext⟩ := hknown.forwardPass_cons hduration
        (hids.mem_of_mem_prerequisites _ id rest hsplit) rest
      by_cases hid : g.Outruns id
      · refine ⟨fun m hm => ?_, fun hnone => absurd hid (hnone id List.mem_cons_self)⟩
        rcases isFirst_cons.1 hm with ⟨-, rfl⟩ | ⟨hnot, -⟩
        · exact hstop hid
        · exact absurd hid hnot
      · obtain ⟨e, rfl, hmeasured, hpass⟩ := hnext hid
        obtain ⟨hlater, hthrough⟩ := ih (known ++ [e])
          (by rw [hsplit, List.map_append, List.map_singleton, List.append_cons]) hmeasured
        rw [hpass]
        refine ⟨fun m hm => ?_, fun hnone => ?_⟩
        · rcases isFirst_cons.1 hm with ⟨hyes, -⟩ | ⟨-, hm⟩
          · exact absurd hyes hid
          · exact hlater m hm
        · exact hthrough fun m hm => hnone m (List.mem_cons_of_mem _ hm)
  exact hsuffix ids [] rfl nofun

end Durations

/-! ## How a timetable comes out -/

/-- A milestone outside the graph takes no time. -/
theorem zero_le_duration_of_forall_mem {g : Graph} {ids : List MilestoneId}
    (hids : g.IsSequence ids) (h : ∀ m ∈ ids, ¬g.duration m < .zero) (m : MilestoneId) :
    0 ≤ (g.duration m).nanos := by
  cases hm : g.contains m with
  | true => exact Int.not_lt.1 (h m ((hids.mem_iff m).2 hm))
  | false =>
    rw [duration, milestone?, get?_eq_none_of_not_contains hm]
    exact Int.le_refl 0

variable {g : Graph} {o : WorkOrder}

/-- A negative duration is refused before anything is computed. -/
theorem timetable_of_negative? (hfits : o.fits g = true) {m : MilestoneId}
    (h : g.negative? o.ids = some m) :
    g.timetable o = .error (.refused (.negativeDuration m (g.duration m).seconds)) := by
  rw [timetable_eq, draft, check, hfits, h]
  rfl

/-- A timetable is refused for what stops the forward pass. -/
theorem timetable_of_forwardPass (hfits : o.fits g = true) (hneg : g.negative? o.ids = none)
    {e : ScheduleError} (h : forwardPass g [] o.ids = .error e) :
    g.timetable o = .error (.refused e) := by
  rw [timetable_eq, draft, check, hfits, hneg, h]
  rfl

/-- Where the slack does not overflow, there is a timetable after the forward pass. -/
theorem exists_timetable_of_forwardPass (hg : g.Linked) (ho : g.workOrder = .ok o)
    (hneg : g.negative? o.ids = none) {early : List Early}
    (hearly : forwardPass g [] o.ids = .ok early) (hroom : ¬g.SlackOverflows) :
    ∃ t, g.timetable o = .ok t := by
  have hseq := isSequence_of_workOrder hg ho
  obtain ⟨hcontract, -⟩ := isWorkOrder_of_workOrder hg ho
  obtain ⟨t, ht, -⟩ := exists_timed hg hseq hneg hearly
  obtain ⟨slackTime, hsum⟩ : ∃ d,
      Duration.ofNanos? (t.ids.map fun m => (t.slack m).nanos).sum = some d := by
    have hzero := ht.zero_le_sum_slack hg
    rw [← Option.ne_none_iff_exists', Ne, Duration.ofNanos?_eq_none_iff]
    intro hlt
    exact hroom ⟨(exists_workOrder_iff hg).1 ⟨o, ho⟩, t, ht, by omega⟩
  obtain ⟨t', ht', -⟩ := ht.exists_timetable hg hsum hseq hcontract
  exact ⟨t', ht'⟩

/-- A traced chain stays inside the graph. -/
theorem Timed.contains_of_mem_criticalChain? {t : Timetable} (h : g.Timed t) (hg : g.Linked)
    {chain : List MilestoneId} (hchain : criticalChain? g t.timings t.total = some chain) :
    ∀ m ∈ chain, g.contains m = true := by
  by_cases hne : t.ids = []
  · rw [List.map_eq_nil_iff.1 hne] at hchain
    cases hchain
    exact nofun
  · obtain ⟨_, hids, hpath⟩ := h.criticalChain?_eq_some hg hne
    cases hchain.symm.trans hids
    exact fun m hm => (h.isCritical_iff.1 (hpath.isCritical m hm)).1

/-- A timetable along the order of work of a graph is refused for the first milestone with a
negative duration.  Without one, it is refused for the first milestone that outruns.  Without one
of these either, it stops if the slack overflows, and otherwise it is there.  Whatever is looked up
on the way has a place in the order. -/
theorem timetable_ends {g : Graph} (hg : g.Built) (hacyclic : g.Acyclic) :
    ∃ o, g.workOrder = .ok o ∧
      (∀ m ∈ o.ids, ∀ x, x ∈ g.prerequisites m ∨ x ∈ g.dependents m →
        ∃ i < o.ids.length, o.position? x = some i) ∧
      (∀ m, IsFirst (fun x => g.duration x < .zero) o.ids m →
        g.timetable o = .error (.refused (.negativeDuration m (g.duration m).seconds))) ∧
      ((∀ m ∈ o.ids, ¬g.duration m < .zero) →
        (∀ m, IsFirst g.Outruns o.ids m → g.timetable o = .error (.refused (.overflow m))) ∧
        ((∀ m ∈ o.ids, ¬g.Outruns m) →
          (∀ f, g.timetable o = .error (.fault f) ↔ f = .durationRange ∧ g.SlackOverflows) ∧
          (¬g.SlackOverflows → ∃ t, g.timetable o = .ok t ∧
            ∀ x ∈ t.criticalChain, ∃ i < o.ids.length, o.position? x = some i))) := by
  have hlinked := hg.linked
  obtain ⟨o, ho⟩ := (exists_workOrder_iff hlinked).2 hacyclic
  obtain ⟨hcontract, -⟩ := isWorkOrder_of_workOrder hlinked ho
  have hseq := isSequence_of_workOrder hlinked ho
  have hfits : o.fits g = true := (WorkOrder.fits_iff hseq.nodup).2 ⟨hcontract, hseq.mem_iff⟩
  have hplace : ∀ x, g.contains x = true → ∃ i < o.ids.length, o.position? x = some i :=
    fun x hx => WorkOrder.exists_position? ((hseq.mem_iff x).2 hx)
  refine ⟨o, ho, fun m _ x hx => hplace x ?_, fun m hm => ?_, fun hnot => ?_⟩
  · rcases hx with hx | hx
    · exact (hlinked.contains_of_mem_prerequisites hx).1
    · exact (hlinked.contains_of_mem_dependents hx).2
  · exact timetable_of_negative? hfits hm.find?_eq_some
  have hneg : g.negative? o.ids = none :=
    List.find?_eq_none.2 fun m hm => by simpa using hnot m hm
  obtain ⟨hstop, hthrough⟩ := forwardPass_ends (zero_le_duration_of_forall_mem hseq hnot) hseq
  refine ⟨fun m hm => timetable_of_forwardPass hfits hneg (hstop m hm), fun hnone => ⟨?_, ?_⟩⟩
  · intro f
    rw [← compute_eq_fault_iff hlinked, compute_of_workOrder ho, map_eq_error]
  · intro hroom
    obtain ⟨early, hearly⟩ := hthrough hnone
    obtain ⟨t, ht⟩ := exists_timetable_of_forwardPass hlinked ho hneg hearly hroom
    have hcompute := compute_of_timetable ho ht
    have hchain := (timed_of_compute hlinked hcompute).contains_of_mem_criticalChain? hlinked
      (chain_of_compute hcompute).1
    exact ⟨t, ht, fun x hx => hplace x (hchain x hx)⟩

/-! ## A marathon -/

/-- Three milestones, of which the first takes as long as anything can. -/
def marathonMilestones : List Milestone :=
  let plain (id : MilestoneId) (span : Duration) : Milestone :=
    { id := id, contractId := 1, title := "", estimatedDuration := some span }
  [plain 1 .longest, plain 2 1, plain 3 1]

/-- They come in a row. -/
def marathonDependencies : List Dependency :=
  [⟨1, 2, 1, .prerequisite⟩, ⟨2, 3, 2, .prerequisite⟩]

/-- The marathon as a graph. -/
def marathon : Graph :=
  match ofRecords 1 marathonMilestones marathonDependencies with
  | .ok g => g
  | .error _ => { contractId := 1 }

/-- The second milestone takes a nanosecond too much, and the third one is not looked at. -/
theorem timetable_ends_marathon : marathon.Built ∧ marathon.Acyclic ∧
    ∃ o, marathon.workOrder = .ok o ∧ o.ids = [1, 2, 3] ∧ IsFirst marathon.Outruns o.ids 2 ∧
      marathon.timetable o = .error (.refused (.overflow 2)) := by
  have hbuilt : marathon.Built := built_of_ofRecords
    (show ofRecords 1 marathonMilestones marathonDependencies = .ok marathon from rfl)
  have horder : marathon.workOrder = .ok ⟨1, [1, 2, 3]⟩ := by cbv
  have hacyclic : marathon.Acyclic := (exists_workOrder_iff hbuilt.linked).1 ⟨_, horder⟩
  have hnot : ∀ m ∈ [1, 2, 3], ¬marathon.duration m < .zero := by decide
  have hduration :=
    zero_le_duration_of_forall_mem (isSequence_of_workOrder hbuilt.linked horder) hnot
  have hfirst : IsGreatest (marathon.chainLengths 1) Duration.maxNanos :=
    isGreatest_chainLengths hduration (fun _ => .zero) fun p hp => absurd hp List.not_mem_nil
  have hsecond : IsGreatest (marathon.chainLengths 2) (Duration.maxNanos + 1) :=
    isGreatest_chainLengths hduration (fun _ => .longest) fun p hp => by
      cases List.mem_singleton.1 hp
      exact hfirst
  have houtruns : IsFirst marathon.Outruns [1, 2, 3] 2 := by
    refine ⟨[1], [3], rfl, (outruns_iff hsecond).2 (by omega), fun x hx => ?_⟩
    cases List.mem_singleton.1 hx
    rw [outruns_iff hfirst]
    omega
  obtain ⟨o, ho, -, -, hends⟩ := timetable_ends hbuilt hacyclic
  cases horder.symm.trans ho
  exact ⟨hbuilt, hacyclic, _, horder, rfl, houtruns, (hends hnot).1 2 houtruns⟩

end Graph

end Milestones
