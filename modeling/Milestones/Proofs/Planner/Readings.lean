import Milestones.Proofs.Planner.Progress
import Milestones.Proofs.Risk.ScoreOrder

/-!
# Batches of readings

A reading may move a milestone once or twice before it is entered, and the next one finds the status
where the moves have left it.  A reading moves only where the life of a milestone allows it: work
starts with the first progress, a milestone that is held up is started only to be completed, and
completion comes after a start.  So the moves are never refused.  What is refused is a reading that
is no percentage, or that comes after the end, and the end may have come earlier in the batch.

## Main definitions

* `Status.afterReading`, `Status.afterReadings`: the status that one reading leads to, and several.
* `Draft.IsOpen`: a milestone of the contract takes readings.
* `Draft.enter`: a reading is entered on a draft.
* `Milestone.recordAll`, `Milestone.HasRead`: a milestone takes several readings, and what they make
  of it.

## Main statements

* `Milestone.exists_recordProgress`, `Milestone.recordProgress_eq_error`: when a reading is taken, and
  why it is refused otherwise.
* `Draft.planFrom_readings`: a batch of readings is entered one by one.
* `Draft.exists_enterAll_iff`: when one reading after the other is taken.
* `Draft.hasRead_of_plan`: when a batch of readings is accepted, and what it leaves behind.
-/

namespace Milestones

open Outcome

/-! ## One reading -/

/-- The only percentage from a hundred on is a hundred. -/
theorem IsPercentage.full_iff {x : Float} (h : IsPercentage x) : 100 ≤ x ↔ x = 100 := by
  constructor
  · exact fun hfull => RiskAssessment.eq_of_le_of_le h.2.2 hfull (by decide)
  · rintro rfl
    decide

namespace Status

theorem isTerminal_eq_false_iff {s : Status} :
    s.isTerminal = false ↔ s ≠ .completed ∧ s ≠ .cancelled := by
  cases s <;> decide

/-- The status that a reading leads to.  A milestone that is held up is not started by progress
alone. -/
def afterReading (s : Status) (value : Float) : Status :=
  if value = 100 then .completed else if s = .pending ∧ 0 < value then .inProgress else s

end Status

namespace Milestone

variable {m m' : Milestone} {value : Float} {now : Instant}

/-- A move of one step is made. -/
theorem exists_moveTo (now : Instant) {target : Status} (h : target ∈ m.status.next) :
    ∃ m', m.moveTo target now = .ok m' := by
  have hmove : (m.status.move target).mapError (Rejection.illegalTransition m.id) = .ok () :=
    mapError_eq_ok.2 (if_pos (.inr h))
  cases target <;> exact ⟨_, bind_eq_ok.2 ⟨(), hmove, rfl⟩⟩

theorem recordProgress_of_not_isPercentage (h : ¬IsPercentage value) :
    m.recordProgress value now = .error (.invalidProgress m.id value) := by
  rw [isPercentage_iff, Bool.not_eq_true] at h
  rw [recordProgress, h]
  rfl

theorem recordProgress_of_closed (hvalue : IsPercentage value)
    (hclosed : m.status.isTerminal = true) :
    m.recordProgress value now = .error (.progressOnClosed m.id m.status) := by
  rw [recordProgress, isPercentage_iff.1 hvalue, if_neg (by decide), if_pos hclosed]
  rfl

/-- A percentage of an open milestone is entered after its moves, if these are made. -/
theorem recordProgress_of_moves {m₁ m₂ : Milestone} (hvalue : IsPercentage value)
    (hopen : m.status.isTerminal = false)
    (h₁ : (if m.startsWith value then m.moveTo .inProgress now else pure m) = .ok m₁)
    (h₂ : (if 100 ≤ value then m₁.moveTo .completed now else pure m₁) = .ok m₂) :
    m.recordProgress value now = .ok { m₂ with percentageComplete := value } := by
  rw [recordProgress, isPercentage_iff.1 hvalue, if_neg (by decide), hopen, if_neg (by decide)]
  split at h₁ <;> rename_i hstart <;> split at h₂ <;> rename_i hfull <;>
    simp only [hstart, hfull, if_true, if_false, Bool.false_eq_true] <;>
    exact bind_eq_ok.2 ⟨m₁, h₁, bind_eq_ok.2 ⟨m₂, h₂, rfl⟩⟩

/-- Work starts on milestones on which it may start. -/
theorem next_of_startsWith (h : m.startsWith value = true) : .inProgress ∈ m.status.next := by
  rw [startsWith] at h
  cases hstatus : m.status with
  | pending | blocked => decide
  | inProgress | completed | cancelled =>
    rw [hstatus] at h
    cases h

/-- A full reading starts whatever is not in progress. -/
theorem status_of_full (hopen : m.status.isTerminal = false) :
    (if m.startsWith 100 then .inProgress else m.status) = Status.inProgress := by
  rw [startsWith]
  cases hstatus : m.status with
  | pending | blocked | inProgress => decide
  | completed | cancelled =>
    rw [hstatus] at hopen
    cases hopen

/-- No other reading starts what is held up. -/
theorem status_of_partial (hvalue : IsPercentage value) (hpart : value ≠ 100) :
    (if m.startsWith value then .inProgress else m.status) = m.status.afterReading value := by
  have hfull : ¬100 ≤ value := fun hle => hpart (hvalue.full_iff.1 hle)
  rw [startsWith, Status.afterReading, if_neg hpart]
  cases m.status <;> simp [hfull]

/-- A percentage of an open milestone is taken. -/
theorem exists_recordProgress (now : Instant) (hvalue : IsPercentage value)
    (hopen : m.status.isTerminal = false) :
    ∃ m', m.recordProgress value now = .ok m' ∧ m'.status = m.status.afterReading value := by
  obtain ⟨m₁, h₁, hstatus⟩ : ∃ m₁,
      (if m.startsWith value then m.moveTo .inProgress now else pure m) = .ok m₁ ∧
        m₁.status = if m.startsWith value then .inProgress else m.status := by
    split
    · rename_i hstart
      obtain ⟨m₁, h₁⟩ := exists_moveTo now (next_of_startsWith hstart)
      exact ⟨m₁, h₁, status_of_moveTo h₁⟩
    · exact ⟨m, rfl, rfl⟩
  by_cases hfull : value = 100
  · subst hfull
    rw [status_of_full hopen] at hstatus
    obtain ⟨m₂, h₂⟩ : ∃ m₂, m₁.moveTo .completed now = .ok m₂ := exists_moveTo now (by
      rw [hstatus]
      decide)
    have hdone : m₂.status = .completed := status_of_moveTo h₂
    refine ⟨_, recordProgress_of_moves hvalue hopen h₁ ((if_pos (by decide)).trans h₂), ?_⟩
    rw [Status.afterReading, if_pos rfl]
    exact hdone
  · have hpart : ¬100 ≤ value := fun hle => hfull (hvalue.full_iff.1 hle)
    refine ⟨_, recordProgress_of_moves hvalue hopen h₁ (if_neg hpart), ?_⟩
    exact hstatus.trans (status_of_partial hvalue hfull)

/-- A reading is taken if it is a percentage and the milestone is open. -/
theorem exists_recordProgress_iff :
    (∃ m', m.recordProgress value now = .ok m') ↔
      IsPercentage value ∧ m.status.isTerminal = false := by
  constructor
  · rintro ⟨m', h⟩
    exact ⟨isPercentage_of_recordProgress h, (recordProgress_eq_ok h).2.1⟩
  · rintro ⟨hvalue, hopen⟩
    obtain ⟨m', h, -⟩ := exists_recordProgress now hvalue hopen
    exact ⟨m', h⟩

theorem status_of_recordProgress (h : m.recordProgress value now = .ok m') :
    m'.status = m.status.afterReading value := by
  obtain ⟨hvalue, hopen⟩ := exists_recordProgress_iff.1 ⟨m', h⟩
  obtain ⟨m'', h', hstatus⟩ := exists_recordProgress now hvalue hopen
  cases h.symm.trans h'
  exact hstatus

/-- A reading is refused for what it is or for coming after the end, and never for a move. -/
theorem recordProgress_eq_error {r : Rejection} (h : m.recordProgress value now = .error r) :
    r = .invalidProgress m.id value ∨ r = .progressOnClosed m.id m.status := by
  by_cases hvalue : IsPercentage value
  · cases hopen : m.status.isTerminal with
    | false =>
      obtain ⟨m', h', -⟩ := exists_recordProgress now hvalue hopen
      cases h.symm.trans h'
    | true =>
      rw [recordProgress_of_closed hvalue hopen] at h
      cases h
      exact .inr rfl
  · rw [recordProgress_of_not_isPercentage hvalue] at h
    cases h
    exact .inl rfl

end Milestone

/-! ## Readings of one milestone -/

/-- The status that readings in a row lead to. -/
def Status.afterReadings (s : Status) (values : List Float) : Status :=
  if values.getLast? = some 100 then .completed
  else if s = .pending ∧ ∃ value ∈ values, 0 < value then .inProgress
  else s

/-- Of the readings before it, the next one finds whether one was above zero, if none was full. -/
theorem Status.afterReadings_concat {s : Status} {values : List Float} {value : Float}
    (h : values.getLast? ≠ some 100) :
    s.afterReadings (values ++ [value]) = (s.afterReadings values).afterReading value := by
  have hvalue : (∃ x ∈ values ++ [value], 0 < x) ↔ (∃ x ∈ values, 0 < x) ∨ 0 < value := by
    simp [or_and_right, exists_or]
  simp only [afterReadings, afterReading, List.getLast?_concat, Option.some_inj, hvalue, if_neg h]
  by_cases hs : s = .pending <;> by_cases hsome : ∃ x ∈ values, 0 < x <;> simp [hs, hsome]

namespace Milestone

variable {m m' : Milestone} {rs : List ProgressReading}

/-- What several readings make of a milestone. -/
structure HasRead (m : Milestone) (rs : List ProgressReading) (m' : Milestone) : Prop where
  last : ∃ e, rs.getLast? = some e ∧ m'.percentageComplete = e.percentageComplete
  completed : m'.status = .completed ↔ m'.percentageComplete = 100
  /-- What is held up is not started by progress alone. -/
  blocked : m.status = .blocked → m'.percentageComplete ≠ 100 → m'.status = .blocked
  started : m.status ≠ .blocked → m'.percentageComplete ≠ 100 →
    (∃ e ∈ rs, 0 < e.percentageComplete) → m'.status = .inProgress
  kept : (∀ e ∈ rs, ¬0 < e.percentageComplete) → m'.status = m.status

/-- A milestone takes one reading after the other. -/
def recordAll (m : Milestone) (rs : List ProgressReading) : Except Rejection Milestone :=
  rs.foldlM (fun m e => m.recordProgress e.percentageComplete e.recordedAt) m

/-- Progress and status after readings in a row. -/
theorem standing_of_recordAll (h : m.recordAll rs = .ok m') :
    m'.status = m.status.afterReadings (rs.map ProgressReading.percentageComplete) ∧
      ∀ e, rs.getLast? = some e → m'.percentageComplete = e.percentageComplete := by
  induction rs using List.reverseRecOn generalizing m' with
  | nil =>
    cases h
    refine ⟨by simp [Status.afterReadings], fun e he => ?_⟩
    cases he
  | append_singleton rest e ih =>
    rw [recordAll, List.foldlM_append, bind_eq_ok] at h
    obtain ⟨m₁, h₁, h⟩ := h
    rw [List.foldlM_cons, bind_eq_ok] at h
    obtain ⟨m₂, h₂, h⟩ := h
    cases h
    have hstatus := (ih h₁).1
    have hopen := (recordProgress_eq_ok h₂).2.1
    -- A full reading would have been the last one.
    have hrest : (rest.map ProgressReading.percentageComplete).getLast? ≠ some 100 := by
      intro hfull
      rw [hstatus, Status.afterReadings, if_pos hfull] at hopen
      cases hopen
    rw [List.map_append, List.getLast?_concat]
    refine ⟨?_, fun e' he' => ?_⟩
    · exact (status_of_recordProgress h₂).trans
        (hstatus ▸ (Status.afterReadings_concat hrest).symm)
    · cases he'
      exact percentageComplete_of_recordProgress h₂

/-- What an open milestone takes makes of it what it should, if it is anything. -/
theorem hasRead_of_recordAll (hopen : m.status.isTerminal = false) (hne : rs ≠ [])
    (h : m.recordAll rs = .ok m') : m.HasRead rs m' := by
  obtain ⟨hstatus, hprogress⟩ := standing_of_recordAll h
  have hlast := List.getLast?_eq_some_getLast hne
  generalize rs.getLast hne = e at hlast
  have hvalue := hprogress e hlast
  simp only [Status.afterReadings, List.getLast?_map, hlast, Option.map_some, ← hvalue,
    Option.some_inj] at hstatus
  refine ⟨⟨e, hlast, hvalue⟩, ⟨fun hdone => ?_, fun hfull => ?_⟩, fun hm hpart => ?_,
    fun hm hpart hsome => ?_, fun hnone => ?_⟩
  · by_contra hpart
    rw [hdone, if_neg hpart] at hstatus
    split at hstatus
    · cases hstatus
    · rw [← hstatus] at hopen
      cases hopen
  · rw [hstatus, if_pos hfull]
  · rw [hstatus, if_neg hpart, hm]
    rfl
  · rw [hstatus, if_neg hpart]
    cases hstart : m.status with
    | pending =>
      obtain ⟨e', he', hpositive⟩ := hsome
      exact if_pos ⟨rfl, _, List.mem_map_of_mem he', hpositive⟩
    | inProgress => rfl
    | blocked => exact absurd hstart hm
    | completed | cancelled =>
      rw [hstart] at hopen
      cases hopen
  · have hpart : m'.percentageComplete ≠ 100 := by
      intro hfull
      refine hnone e (List.mem_of_getLast? hlast) ?_
      rw [← hvalue, hfull]
      decide
    rw [hstatus, if_neg hpart, if_neg]
    rintro ⟨-, value, hvalue, hpositive⟩
    obtain ⟨e', he', rfl⟩ := List.mem_map.1 hvalue
    exact hnone e' he' hpositive

end Milestone

/-! ## Readings on a draft -/

/-- The change takes readings. -/
def Mutation.isProgress : Mutation → Bool
  | setProgress _ => true
  | _ => false

namespace Draft

variable {d d' : Draft} {now : Instant} {e : ProgressReading} {id : MilestoneId}

/-- The milestone is one of the contract, and is neither completed nor cancelled. -/
def IsOpen (d : Draft) (id : MilestoneId) : Prop :=
  d.elsewhere.lookup id = none ∧
    ∃ m ∈ d.milestones.get? id, m.status ≠ .completed ∧ m.status ≠ .cancelled

instance (d : Draft) (id : MilestoneId) : Decidable (d.IsOpen id) :=
  inferInstanceAs (Decidable (_ ∧ ∃ m ∈ d.milestones.get? id, _))

theorem isOpen_iff : d.IsOpen id ↔ ∃ m, d.find id = .ok m ∧ m.status.isTerminal = false := by
  simp only [IsOpen, find_eq_ok, Status.isTerminal_eq_false_iff, and_assoc, exists_and_left,
    Option.mem_def]

/-- A milestone that is put is found instead of the one before. -/
theorem find_put_self {m m' : Milestone} (hfind : d.find m'.id = .ok m) :
    (d.put m').find m'.id = .ok m' :=
  find_eq_ok.2 ⟨(find_eq_ok.1 hfind).1, by rw [get?_put, if_pos rfl]⟩

theorem find_put_of_ne {m : Milestone} (hne : m.id ≠ id) : (d.put m).find id = d.find id := by
  rw [find, find, get?_put, if_neg hne]
  rfl

/-! ### One by one -/

/-- A reading is entered on a draft. -/
def enter (d : Draft) (e : ProgressReading) : Except Rejection Draft := do
  let m ← d.find e.milestoneId
  let m' ← m.recordProgress e.percentageComplete e.recordedAt
  pure (d.put m')

theorem map_setProgress (d : Draft) (u : ProgressUpdate) :
    (setProgress now d u).map Prod.fst = d.enter ⟨u.milestoneId, u.percentageComplete, now⟩ := by
  change Prod.fst <$> setProgress now d u = _
  simp only [setProgress, enter, map_bind, map_pure]

/-- Changes one after the other, without their effects. -/
theorem map_each {α : Type} (change : Draft → α → Except Rejection (Draft × Effect)) (d : Draft)
    (as : List α) :
    (each change d as).map Prod.fst = as.foldlM (fun d a => (change d a).map Prod.fst) d := by
  induction as generalizing d with
  | nil => rfl
  | cons a rest ih =>
    rw [List.foldlM_cons]
    change Prod.fst <$> each change d (a :: rest) = Prod.fst <$> change d a >>= _
    simp only [each, map_bind, map_pure, bind_map_left, ← ih]
    rfl

/-- Changes that take readings enter these one by one. -/
theorem planFrom_readings {xs : List Mutation} (hxs : ∀ x ∈ xs, x.isProgress = true) (index : Nat)
    (d : Draft) :
    ((planFrom now index d xs).map Prod.fst).mapError Prod.snd =
      (xs.flatMap (Mutation.readings now)).foldlM enter d := by
  induction xs generalizing index d with
  | nil => rfl
  | cons x rest ih =>
    obtain ⟨updates, rfl⟩ : ∃ updates, x = .setProgress updates := by
      cases x with
      | setProgress updates => exact ⟨updates, rfl⟩
      | _ => cases hxs _ List.mem_cons_self
    have hfirst : ((Mutation.setProgress updates).readings now).foldlM enter d =
        (each (setProgress now) d updates).map Prod.fst := by
      rw [map_each, Mutation.readings, List.foldlM_map]
      simp only [map_setProgress]
    rw [List.flatMap_cons, List.foldlM_append, hfirst]
    change (Prod.fst <$> planFrom now index d (.setProgress updates :: rest)).mapError _ = _
    simp only [planFrom, mutate, map_bind, map_pure]
    cases each (setProgress now) d updates with
    | error r => rfl
    | ok first => exact ih (fun x hx => hxs x (List.mem_cons_of_mem _ hx)) (index + 1) first.1

/-! ### When they are entered -/

theorem enter_eq_ok : d.enter e = .ok d' ↔ ∃ m m', d.find e.milestoneId = .ok m ∧
    m.recordProgress e.percentageComplete e.recordedAt = .ok m' ∧ d.put m' = d' := by
  simp [enter, bind_eq_ok, pure, Except.pure]

theorem exists_enter_iff :
    (∃ d', d.enter e = .ok d') ↔ IsPercentage e.percentageComplete ∧ d.IsOpen e.milestoneId := by
  constructor
  · rintro ⟨d', h⟩
    obtain ⟨m, m', hfind, hrecord, -⟩ := enter_eq_ok.1 h
    obtain ⟨hvalue, hopen⟩ := Milestone.exists_recordProgress_iff.1 ⟨m', hrecord⟩
    exact ⟨hvalue, isOpen_iff.2 ⟨m, hfind, hopen⟩⟩
  · rintro ⟨hvalue, hopen⟩
    obtain ⟨m, hfind, hopen⟩ := isOpen_iff.1 hopen
    obtain ⟨m', hrecord⟩ := Milestone.exists_recordProgress_iff.2 ⟨hvalue, hopen⟩
    exact ⟨_, enter_eq_ok.2 ⟨m, m', hfind, hrecord, rfl⟩⟩

/-- A reading leaves all milestones alone but its own, which takes it. -/
theorem find_of_enter (h : d.enter e = .ok d') : ∃ m m', d.find e.milestoneId = .ok m ∧
    m.recordProgress e.percentageComplete e.recordedAt = .ok m' ∧
    d'.find e.milestoneId = .ok m' ∧ ∀ id, e.milestoneId ≠ id → d'.find id = d.find id := by
  obtain ⟨m, m', hfind, hrecord, rfl⟩ := enter_eq_ok.1 h
  have hid : m'.id = e.milestoneId :=
    (Milestone.sameButStanding_of_recordProgress hrecord).id_eq.trans (id_of_find hfind)
  refine ⟨m, m', hfind, hrecord, ?_, fun id hne => find_put_of_ne (hid ▸ hne)⟩
  rw [← hid] at hfind ⊢
  exact find_put_self hfind

/-- No reading is refused for a move. -/
theorem enter_ne_illegalTransition (d : Draft) (e : ProgressReading) (id : MilestoneId)
    (t : IllegalTransition) : d.enter e ≠ .error (.illegalTransition id t) := by
  intro h
  rcases bind_eq_error.1 h with hfind | ⟨m, -, h⟩
  · rw [find] at hfind
    split at hfind
    · cases hfind
    · split at hfind <;> cases hfind
  · rcases bind_eq_error.1 h with hrecord | ⟨m', -, h⟩
    · rcases Milestone.recordProgress_eq_error hrecord with h | h <;> cases h
    · cases h

/-- After a reading, the same milestones are open, without its own if the reading is full. -/
theorem isOpen_of_enter (h : d.enter e = .ok d') :
    d'.IsOpen id ↔ d.IsOpen id ∧ (e.percentageComplete = 100 → id ≠ e.milestoneId) := by
  obtain ⟨m, m', hfind, hrecord, hfind', hothers⟩ := find_of_enter h
  by_cases hid : e.milestoneId = id
  · subst hid
    have hopen := (Milestone.recordProgress_eq_ok hrecord).2.1
    have hstatus := Milestone.status_of_recordProgress hrecord
    rw [isOpen_iff, hfind']
    by_cases hfull : e.percentageComplete = 100
    · refine iff_of_false ?_ fun h => h.2 hfull rfl
      rintro ⟨_, ⟨⟩, hopen'⟩
      rw [hstatus, Status.afterReading, if_pos hfull] at hopen'
      cases hopen'
    · refine iff_of_true ⟨m', rfl, ?_⟩ ⟨isOpen_iff.2 ⟨m, hfind, hopen⟩, fun h => absurd h hfull⟩
      rw [hstatus, Status.afterReading, if_neg hfull]
      split
      · rfl
      · exact hopen
  · rw [isOpen_iff, isOpen_iff, hothers id hid]
    exact ⟨fun h => ⟨h, fun _ => Ne.symm hid⟩, And.left⟩

/-- One reading after the other is entered exactly if each of them is a percentage for a milestone
that is open at first, and none comes after a full one of its milestone. -/
theorem exists_enterAll_iff {rs : List ProgressReading} :
    (∃ d', rs.foldlM enter d = .ok d') ↔
      (∀ e ∈ rs, IsPercentage e.percentageComplete ∧ d.IsOpen e.milestoneId) ∧
        rs.Pairwise fun e e' => e.percentageComplete = 100 → e'.milestoneId ≠ e.milestoneId := by
  induction rs generalizing d with
  | nil => exact ⟨fun _ => ⟨List.forall_mem_nil _, .nil⟩, fun _ => ⟨d, rfl⟩⟩
  | cons e rest ih =>
    have hrest : (∃ d', (e :: rest).foldlM enter d = .ok d') ↔
        ∃ d₁, d.enter e = .ok d₁ ∧ ∃ d', rest.foldlM enter d₁ = .ok d' := by
      simp only [List.foldlM_cons, bind_eq_ok]
      exact ⟨fun ⟨d', d₁, h₁, h⟩ => ⟨d₁, h₁, d', h⟩, fun ⟨d₁, h₁, d', h⟩ => ⟨d', d₁, h₁, h⟩⟩
    rw [hrest, List.forall_mem_cons, List.pairwise_cons, ← exists_enter_iff]
    constructor
    · rintro ⟨d₁, h₁, h⟩
      obtain ⟨hopen, hpairs⟩ := ih.1 h
      have hbefore := fun e' he' => (isOpen_of_enter h₁).1 (hopen e' he').2
      exact ⟨⟨⟨d₁, h₁⟩, fun e' he' => ⟨(hopen e' he').1, (hbefore e' he').1⟩⟩,
        fun e' he' => (hbefore e' he').2, hpairs⟩
    · rintro ⟨⟨⟨d₁, h₁⟩, hopen⟩, hfull, hpairs⟩
      refine ⟨d₁, h₁, ih.2 ⟨fun e' he' => ⟨(hopen e' he').1, ?_⟩, hpairs⟩⟩
      exact (isOpen_of_enter h₁).2 ⟨(hopen e' he').2, hfull e' he'⟩

/-! ### What they leave behind -/

/-- A milestone takes its own readings and no others. -/
theorem find_of_enterAll {rs : List ProgressReading} (h : rs.foldlM enter d = .ok d')
    {m : Milestone} (hfind : d.find id = .ok m) :
    ∃ m', d'.find id = .ok m' ∧ m.recordAll (rs.filter fun e => e.milestoneId == id) = .ok m' := by
  induction rs generalizing d m with
  | nil =>
    cases h
    exact ⟨m, hfind, rfl⟩
  | cons e rest ih =>
    rw [List.foldlM_cons, bind_eq_ok] at h
    obtain ⟨d₁, h₁, h⟩ := h
    obtain ⟨m₁, m₂, hfind₁, hrecord, hfind₂, hothers⟩ := find_of_enter h₁
    by_cases hid : e.milestoneId = id
    · subst hid
      cases hfind.symm.trans hfind₁
      obtain ⟨m', hfind', hrest⟩ := ih h hfind₂
      refine ⟨m', hfind', ?_⟩
      rw [List.filter_cons_of_pos (by simp), Milestone.recordAll, List.foldlM_cons,
        hrecord]
      exact hrest
    · obtain ⟨m', hfind', hrest⟩ := ih h ((hothers id hid).trans hfind)
      exact ⟨m', hfind', by rwa [List.filter_cons_of_neg (by simpa using hid)]⟩

/-! ## Batches -/

/-- When a batch of readings alone is accepted, and what it leaves behind.  It is accepted exactly if
every reading is a percentage for a milestone of the contract that was neither completed nor
cancelled before the batch, and no reading comes after a full one of its milestone.  It is never
rejected for a move of a status that the life of a milestone does not allow.  If it is accepted, then
in the draft, and in whatever its writes lead to, every milestone with readings has the progress of
the last one, is completed exactly if that is full, stays held up if it was and is not completed, and
is in progress otherwise once a reading was above zero. -/
theorem hasRead_of_plan {b : Batch} (hb : ∀ x ∈ b.mutations, x.isProgress = true) (d : Draft)
    (now : Instant) :
    ((∃ planned, d.plan b now = .ok planned) ↔
      (∀ e ∈ b.readings now, IsPercentage e.percentageComplete ∧ d.IsOpen e.milestoneId) ∧
        (b.readings now).Pairwise fun e e' =>
          e.percentageComplete = 100 → e'.milestoneId ≠ e.milestoneId) ∧
      (∀ index id t, d.plan b now ≠ .error (index, .illegalTransition id t)) ∧
      ∀ d' effect, d.plan b now = .ok (d', effect) →
        (∀ e ∈ b.readings now, ∃ m m', d.milestones.get? e.milestoneId = some m ∧
          d'.milestones.get? e.milestoneId = some m' ∧
          m.HasRead ((b.readings now).filter fun e' => e'.milestoneId == e.milestoneId) m') ∧
        ∀ history r, (d.records history).applyAll effect.writes = .ok r →
          r = d'.records (history ++ b.readings now) := by
  have hplan : ((d.plan b now).map Prod.fst).mapError Prod.snd =
      (b.readings now).foldlM enter d := planFrom_readings hb 0 d
  have haccepted : (∃ planned, d.plan b now = .ok planned) ↔
      ∃ d', (b.readings now).foldlM enter d = .ok d' := by
    rw [← hplan]
    cases d.plan b now <;> simp [Except.map, Except.mapError]
  refine ⟨haccepted.trans exists_enterAll_iff, fun index id t h => ?_, fun d' effect h => ?_⟩
  · rw [h] at hplan
    obtain ⟨d₁, e, -, he⟩ := exists_of_foldlM_eq_error hplan.symm
    exact enter_ne_illegalTransition d₁ e id t he
  · refine ⟨fun e he => ?_, fun history r hr => eq_of_applyAll_of_plan h hr⟩
    rw [h] at hplan
    obtain ⟨-, hopen⟩ := (exists_enterAll_iff.1 ⟨d', hplan.symm⟩).1 e he
    obtain ⟨m, hfind, hopen⟩ := isOpen_iff.1 hopen
    obtain ⟨m', hfind', hrecorded⟩ := find_of_enterAll hplan.symm hfind
    refine ⟨m, m', (find_eq_ok.1 hfind).2, (find_eq_ok.1 hfind').2, ?_⟩
    exact Milestone.hasRead_of_recordAll hopen
      (List.ne_nil_of_mem (List.mem_filter.2 ⟨he, beq_self_eq_true _⟩)) hrecorded

/-- A milestone that is not started and one that is held up. -/
def waiting : Draft :=
  ofRecords 1
    [{ id := 1, contractId := 1, title := "a" },
      { id := 2, contractId := 1, title := "b", status := .blocked }] []

/-- Readings of both milestones, the last one of the second milestone full. -/
def resumed : Batch :=
  { contractId := 1
    mutations := [.setProgress [⟨1, 0⟩, ⟨2, 50⟩, ⟨1, 60⟩], .setProgress [⟨2, 100⟩]] }

/-- The first milestone ends up in progress and the second one completed. -/
theorem hasRead_of_plan_resumed : (∀ x ∈ resumed.mutations, x.isProgress = true) ∧
    ∃ d effect, waiting.plan resumed .epoch = .ok (d, effect) ∧
      (∃ m ∈ d.milestones.get? 1, m.percentageComplete = 60 ∧ m.status = .inProgress) ∧
      ∃ m ∈ d.milestones.get? 2, m.percentageComplete = 100 ∧ m.status = .completed := by
  have hresumed : ∀ x ∈ resumed.mutations, x.isProgress = true := by decide
  obtain ⟨hiff, -, hread⟩ := hasRead_of_plan hresumed waiting .epoch
  obtain ⟨⟨d, effect⟩, hplan⟩ := hiff.2 (by decide)
  obtain ⟨hread, -⟩ := hread d effect hplan
  obtain ⟨m, m', hm, hm', hfirst⟩ := hread ⟨1, 60, .epoch⟩ (by decide)
  obtain ⟨n, n', -, hn', hsecond⟩ := hread ⟨2, 100, .epoch⟩ (by decide)
  obtain ⟨_, ⟨⟩, hprogress⟩ := hfirst.last
  obtain ⟨_, ⟨⟩, hfull⟩ := hsecond.last
  have hpending : m.status = .pending := by
    cases hm
    rfl
  refine ⟨hresumed, d, effect, hplan, ⟨m', hm', hprogress, ?_⟩, n', hn', hfull, ?_⟩
  · refine hfirst.started ?_ ?_ ⟨⟨1, 60, .epoch⟩, by decide, by decide⟩
    · rw [hpending]
      decide
    · rw [hprogress]
      decide
  · exact hsecond.completed.2 hfull

end Draft

end Milestones
