import Milestones.Proofs.Planner.Oblivious
import Milestones.Proofs.Planner.Splitting

/-!
# How hash maps are arranged

Hash maps list their entries in an arbitrary order.  Every order is possible, and two planners that
do the same may see different ones.  This shows in two places.  The average of a trend is a sum of
floating-point numbers, which depends on their order.  And a batch that takes a milestone to exist
which several other contracts have is told of one of these contracts.

Nothing else shows, provided that stored milestones name the contract where they are stored.  Then
it does not depend on the order whether a batch is refused, because any of the contracts is another
one than that of the batch.

## Main definitions

* `Trend.SameUpToOrder`: trends whose averages are of the same numbers.
* `Reply.SameUpToOrder`: answers that differ only in what depends on the order.
* `Planner.Rearranged`: planners that differ only in the arrangement of their hash maps.

## Main statements

* `Hashing.exists_listed_eq`: every order is that of some places.
* `Trend.compute_sameUpToOrder`: trends of one journal.
* `Planner.sameUpToOrder_replies`: the answers to several requests.
-/

namespace Milestones

open Outcome

/-! ## Orders -/

namespace Hashing

variable {α : Type}

theorem pairwise_insertByPlace {place : α → Nat} {a : α} {l : List α}
    (h : l.Pairwise fun a b => place a ≤ place b) :
    (insertByPlace place a l).Pairwise fun a b => place a ≤ place b := by
  induction l with
  | nil => exact List.pairwise_singleton _ _
  | cons b rest ih =>
    obtain ⟨hb, hrest⟩ := List.pairwise_cons.1 h
    rw [insertByPlace]
    split
    · rename_i hab
      refine List.pairwise_cons.2 ⟨fun c hc => ?_, h⟩
      rcases List.mem_cons.1 hc with rfl | hc
      · exact hab
      · exact Nat.le_trans hab (hb c hc)
    · rename_i hba
      refine List.pairwise_cons.2 ⟨fun c hc => ?_, ih hrest⟩
      rcases List.mem_cons.1 ((perm_insertByPlace place a rest).mem_iff.1 hc) with rfl | hc
      · exact Nat.le_of_not_le hba
      · exact hb c hc

variable {kind : RecordKind} [Identified α kind]

theorem pairwise_listed (h : Hashing) (t : Table α) :
    (h.listed t).Pairwise fun a b =>
      h.place t.size (recordId a).value ≤ h.place t.size (recordId b).value := by
  rw [listed]
  induction t.toList with
  | nil => exact .nil
  | cons a rest ih => exact pairwise_insertByPlace ih

/-- Every order of the records of a table is that of some places. -/
theorem exists_listed_eq (t : Table α) {l : List α} (hl : l.Perm t.toList) :
    ∃ h : Hashing, h.listed t = l := by
  let numbers := l.map fun a => (recordId a).value
  have hnodup : numbers.Nodup := by
    have hids : (l.map recordId).Nodup := (hl.map recordId).nodup_iff.2 t.nodup_ids
    have hvalues := hids.map (f := RecordId.value) fun _ _ h => RecordId.ext h
    rwa [List.map_map] at hvalues
  have hmem : ∀ {a}, a ∈ l → (recordId a).value ∈ numbers := fun ha =>
    List.mem_map.2 ⟨_, ha, rfl⟩
  have hranked : l.Pairwise fun a b =>
      numbers.idxOf (recordId a).value ≤ numbers.idxOf (recordId b).value := by
    have hranked : numbers.Pairwise fun m n => numbers.idxOf m ≤ numbers.idxOf n := by
      refine List.pairwise_iff_getElem.2 fun i j hi hj hij => ?_
      rw [hnodup.idxOf_getElem i hi, hnodup.idxOf_getElem j hj]
      exact Nat.le_of_lt hij
    exact (List.pairwise_map (R := fun m n => numbers.idxOf m ≤ numbers.idxOf n)).1 hranked
  let h : Hashing := { place := fun _ key => numbers.idxOf key }
  have hperm := (h.perm_listed t).trans hl.symm
  refine ⟨h, hperm.eq_of_pairwise (fun a b ha hb hab hba => ?_) (h.pairwise_listed t) hranked⟩
  have ha := hperm.mem_iff.1 ha
  have hvalue := (List.idxOf_inj (hmem ha)).1 (Nat.le_antisymm hab hba)
  exact List.inj_on_of_nodup_map hnodup ha hb hvalue

end Hashing

/-! ## Trends -/

/-- The average of some numbers, added up in their order. -/
def Trend.average (total : Nat) (values : List Float) : Float :=
  if total = 0 then 0 else values.foldl (· + ·) (-0.0) / Float.ofNat total

/-- Two buckets that are the same, but for the order in which the average was added up. -/
structure TrendPoint.SameUpToOrder (total : Nat) (p p' : TrendPoint) : Prop where
  eq : { p' with averageProgress := p.averageProgress } = p
  averages : ∃ values values' : List Float, values.Perm values' ∧
    p.averageProgress = Trend.average total values ∧
      p'.averageProgress = Trend.average total values'

/-- Two trends whose buckets are. -/
structure Trend.SameUpToOrder (t t' : Trend) : Prop where
  total_eq : t'.total = t.total
  points : List.Forall₂ (TrendPoint.SameUpToOrder t.total) t.points t'.points

namespace Trend

variable {start finish : Instant} {latest : Table ProgressReading}

theorem averageProgress_point (hashing : Hashing) (total updates : Nat) :
    (point hashing start finish total latest updates).averageProgress =
      average total ((hashing.listed latest).map ProgressReading.percentageComplete) := by
  rw [average, List.foldl_map]
  rfl

theorem sameUpToOrder_point (h h' : Hashing) (total updates : Nat) :
    (point h start finish total latest updates).SameUpToOrder total
      (point h' start finish total latest updates) where
  eq := rfl
  averages := ⟨_, _, ((h.perm_listed latest).trans (h'.perm_listed latest).symm).map _,
    averageProgress_point h total updates, averageProgress_point h' total updates⟩

theorem rel_points? (h h' : Hashing) (total : Nat) (width : Duration) (count : Nat)
    (start : Instant) (latest : Table ProgressReading) (readings : List ProgressReading) :
    Option.Rel (List.Forall₂ (TrendPoint.SameUpToOrder total))
      (points? h total width count start latest readings)
      (points? h' total width count start latest readings) := by
  induction count generalizing start latest readings with
  | zero => exact .some .nil
  | succ count ih =>
    rw [points?, points?]
    cases hfinish : start.add? width with
    | none => exact .none
    | some finish =>
      have hrest := ih finish
        ((readings.takeWhile fun r => r.recordedAt < finish).foldl Table.insert latest)
        (readings.drop (readings.takeWhile fun r => r.recordedAt < finish).length)
      simp only [bind, Option.bind_some]
      generalize points? h total width count finish _ _ = rest at hrest ⊢
      generalize points? h' total width count finish _ _ = rest' at hrest ⊢
      cases hrest with
      | none => exact .none
      | some hrest => exact .some (.cons (sameUpToOrder_point h h' total _) hrest)

/-- Trends of one journal differ only in the order in which averages are added up. -/
theorem compute_sameUpToOrder (milestones : List MilestoneId) (history : List ProgressReading)
    (width : Duration) (now : Instant) (h h' : Hashing) :
    (∃ e, compute milestones history width now h = .error e ∧
      compute milestones history width now h' = .error e) ∨
    ∃ t t', compute milestones history width now h = .ok t ∧
      compute milestones history width now h' = .ok t' ∧ t.SameUpToOrder t' := by
  rw [compute, compute]
  split
  · exact .inl ⟨_, rfl, rfl⟩
  dsimp only
  split
  · split
    · exact .inl ⟨_, rfl, rfl⟩
    · rename_i first last _ _ _
      have hpoints := rel_points? h h' milestones.eraseDups.length width
        (bucketCount width first.recordedAt (now.max last.recordedAt)) first.recordedAt .empty
        (readings milestones history)
      generalize points? h _ width _ _ _ _ = points at hpoints ⊢
      generalize points? h' _ width _ _ _ _ = points' at hpoints ⊢
      cases hpoints with
      | none => exact .inl ⟨_, rfl, rfl⟩
      | some hpoints => exact .inr ⟨_, _, rfl, rfl, rfl, hpoints⟩
  · exact .inr ⟨_, _, rfl, rfl, rfl, .nil⟩

/-- The order does make a difference. -/
example : average 3 [0.1, 0.2, 0.3] ≠ average 3 [0.3, 0.2, 0.1] := by decide

end Trend

/-! ## Rejections -/

/-- The rejection without the contract that it names as another one. -/
def Rejection.anonymous : Rejection → Rejection
  | contractMismatch id expected _ => contractMismatch id expected expected
  | r => r

theorem Rejection.eq_or_of_anonymous {r r' : Rejection} (h : r.anonymous = r'.anonymous) :
    r = r' ∨ ∃ id expected actual actual', r = .contractMismatch id expected actual ∧
      r' = .contractMismatch id expected actual' := by
  cases r <;> cases r' <;> simp_all [anonymous]

namespace Store

variable {s : Store} {b : Batch} {c : ContractId} {id : MilestoneId}

@[simp] theorem offline_rehash (s : Store) (hashing : Hashing) :
    (s.rehash hashing).offline = s.offline := rfl

@[simp] theorem records_rehash (s : Store) (hashing : Hashing) :
    (s.rehash hashing).records = s.records := rfl

@[simp] theorem hashing_rehash (s : Store) (hashing : Hashing) :
    (s.rehash hashing).hashing = hashing := rfl

/-- Something is noted of a milestone that only other contracts have. -/
theorem isSome_note?_iff (hnames : s.NamesContracts) (hown : ¬s.Has c id) :
    (s.note? c id).isSome = true ↔ ∃ c', s.Has c' id := by
  constructor
  · intro h
    obtain ⟨⟨id', c'⟩, hnote⟩ := Option.isSome_iff_exists.1 h
    obtain rfl := eq_of_note? hnote
    exact ⟨c', (has_of_note? hnames hnote).2⟩
  · rintro ⟨c', hhas⟩
    obtain ⟨m, hm⟩ := Table.contains_iff_get?.1 hhas
    obtain ⟨r, hr, rfl⟩ := exists_mem_contracts hm
    rw [note?]
    cases hfind : s.find? id with
    | none =>
      have hnone := List.findSome?_eq_none_iff.1 hfind r (Hashing.mem_listed.2 hr)
      rw [← records_of_mem hr, hm] at hnone
      cases hnone
    | some x =>
      -- The milestone that is found names the contract where it is stored, and this is not `c`.
      obtain ⟨r', hr', hx⟩ := List.exists_of_findSome?_eq_some hfind
      have hrecords := records_of_mem (Hashing.mem_listed.1 hr')
      have hcontract : x.contractId = r'.contractId :=
        hnames r'.contractId x (hrecords.symm ▸ Table.mem_of_get? hx)
      have hne : x.contractId ≠ c := fun hc => hown (by
        rw [Has, ← hc, hcontract, hrecords]
        exact Table.contains_iff_get?.2 ⟨x, hx⟩)
      simp only [ne_eq, hne, not_false_eq_true, if_true, Option.isSome_some]

theorem isSome_lookup_draft_iff :
    ((s.draft b).elsewhere.lookup id).isSome = true ↔
      id ∈ b.referenced ∧ ¬s.Has b.contractId id ∧ (s.note? b.contractId id).isSome = true := by
  simp only [List.lookup_isSome_iff, beq_iff_eq, draft, List.mem_reverse, List.mem_filterMap,
    List.mem_filter, Bool.not_eq_true', Bool.not_eq_true, Has]
  constructor
  · rintro ⟨⟨_, c⟩, ⟨id', ⟨href, hown⟩, hnote⟩, rfl⟩
    obtain rfl := eq_of_note? hnote
    exact ⟨href, hown, by rw [hnote]; rfl⟩
  · rintro ⟨href, hown, hnote⟩
    obtain ⟨⟨id', c⟩, hnote⟩ := Option.isSome_iff_exists.1 hnote
    obtain rfl := eq_of_note? hnote
    exact ⟨_, ⟨_, ⟨href, hown⟩, hnote⟩, rfl⟩

/-- However the maps are arranged, the notes for a batch are about the same milestones. -/
theorem concurs_draft_rehash (hnames : s.NamesContracts) (b : Batch) (hashing : Hashing)
    (id : MilestoneId) :
    Draft.Concurs Rejection.anonymous ((s.rehash hashing).draft b).elsewhere (s.draft b) id := by
  have hsome : (((s.rehash hashing).draft b).elsewhere.lookup id).isSome =
      ((s.draft b).elsewhere.lookup id).isSome := by
    rw [Bool.eq_iff_iff, isSome_lookup_draft_iff, isSome_lookup_draft_iff]
    refine and_congr_right fun _ => and_congr_right fun hown => ?_
    rw [isSome_note?_iff hnames hown]
    exact isSome_note?_iff (s := s.rehash hashing) hnames hown
  rw [Draft.Concurs, Draft.refusal, Draft.refusal]
  cases hlookup : ((s.rehash hashing).draft b).elsewhere.lookup id with
  | none =>
    rw [hlookup, Option.isSome_none, eq_comm, Option.isSome_eq_false_iff,
      Option.isNone_iff_eq_none] at hsome
    rw [hsome]
  | some c =>
    rw [hlookup, Option.isSome_some, eq_comm, Option.isSome_iff_exists] at hsome
    obtain ⟨c', hc'⟩ := hsome
    rw [hc']
    rfl

/-- A trend differs only in the order in which averages are added up. -/
theorem trend_rehash (s : Store) (width : Duration) (c : ContractId) (now : Instant)
    (hashing : Hashing) :
    s.trend width c now = (s.rehash hashing).trend width c now ∨
      ∃ t t', s.trend width c now = .ok t ∧ (s.rehash hashing).trend width c now = .ok t' ∧
        t.SameUpToOrder t' := by
  rw [trend, trend, offline_rehash, records_rehash, hashing_rehash]
  split
  · exact .inl rfl
  · rcases Trend.compute_sameUpToOrder ((s.records c).milestones.toList.map Milestone.id)
      (s.records c).history width now s.hashing hashing with ⟨e, he, he'⟩ | ⟨t, t', ht, ht', hsame⟩
    · rw [he, he']
      exact .inl rfl
    · rw [ht, ht']
      exact .inr ⟨t, t', rfl, rfl, hsame⟩

/-- A transaction is the same however the maps are arranged. -/
theorem apply_rehash (s : Store) (hashing : Hashing) (c : ContractId) (ws : List Write) :
    (s.rehash hashing).apply c ws = (s.apply c ws).map fun s' => s'.rehash hashing := by
  change s.checkOnline >>= _ = Except.map _ (s.checkOnline >>= _)
  cases s.checkOnline with
  | error e => rfl
  | ok u =>
    change (s.records c).applyAll ws >>= _ = Except.map _ ((s.records c).applyAll ws >>= _)
    cases (s.records c).applyAll ws <;> rfl

end Store

/-! ## Answers -/

/-- Two answers that are the same, but for what depends on the order of hash maps: the averages of a
trend, and the contract that a rejected batch is told of. -/
inductive Reply.SameUpToOrder : Outcome PlannerError Reply → Outcome PlannerError Reply → Prop
  | same (result : Outcome PlannerError Reply) : SameUpToOrder result result
  | trend {t t' : Trend} (h : t.SameUpToOrder t') : SameUpToOrder (.ok (.trend t)) (.ok (.trend t'))
  | mismatch {index : Nat} {id : MilestoneId} {expected actual actual' : ContractId} :
      SameUpToOrder
        (.error (.refused (.rejected index (.contractMismatch id expected actual))))
        (.error (.refused (.rejected index (.contractMismatch id expected actual'))))

namespace Planner

variable {α : Type} {p q : Planner}

/-- Two planners differ only in the arrangement of their hash maps. -/
def Rearranged (p q : Planner) : Prop := ∃ hashing, q = p.rehash hashing

namespace Rearranged

/-- An operation that changes nothing and does not go through a hash map. -/
theorem respects_of_on_eq {x : Run α} {answer : Planner → Outcome PlannerError α}
    (hx : ∀ p, x.on p = (answer p, p))
    (hanswer : ∀ (p : Planner) (hashing : Hashing), answer (p.rehash hashing) = answer p) :
    Run.Respects Rearranged x := by
  rintro p _ ⟨hashing, rfl⟩
  rw [hx, hx, hanswer]
  exact ⟨rfl, hashing, rfl⟩

/-- An operation that changes the memory alone. -/
theorem respects_of_memory {x : Run α} (a : α) (change : Memory → Memory)
    (hx : ∀ p : Planner, x.on p = (.ok a, { p with memory := change p.memory })) :
    Run.Respects Rearranged x := by
  rintro p _ ⟨hashing, rfl⟩
  rw [hx, hx]
  exact ⟨rfl, hashing, rfl⟩

theorem schedule (c : ContractId) : Run.Respects Rearranged (schedule c) := by
  refine .get_bind (fun p q ⟨hashing, hq⟩ => by rw [hq]; rfl) fun p => ?_
  have hload : Run.Respects Rearranged (loadGraph c) :=
    respects_of_on_eq (on_loadGraph c) fun _ _ => rfl
  split
  · exact .pure _
  · exact hload.bind fun g => .bind (.ofOutcome _ _) fun s =>
      .bind (respects_of_memory () (fun m => m.insert c s) fun _ => rfl) fun _ => .pure s

/-- Neither schedules nor transactions depend on how hash maps are arranged. -/
theorem interchangeable : Interchangeable Rearranged where
  settings_eq := by
    rintro p _ ⟨hashing, rfl⟩
    rfl
  schedule := schedule
  commit_forget c ws f hf := by
    rintro p _ ⟨hashing, rfl⟩
    have hrehash := p.store.apply_rehash hashing c ws
    cases happly : p.store.apply c ws with
    | error e =>
      rw [happly] at hrehash
      rw [Run.on_bind_of_error (on_commit_of_error happly),
        Run.on_bind_of_error (on_commit_of_error hrehash)]
      exact ⟨rfl, hashing, rfl⟩
    | ok s =>
      rw [happly] at hrehash
      rw [Run.on_bind_of_ok (on_commit_of_ok happly), Run.on_bind_of_ok (on_forget _ c),
        Run.on_bind_of_ok (on_commit_of_ok hrehash), Run.on_bind_of_ok (on_forget _ c)]
      exact hf () _ _ ⟨hashing, rfl⟩
  clear := respects_of_memory () Memory.clear fun _ => rfl
  forget c := respects_of_memory () (fun m => m.forget c) fun _ => rfl

end Rearranged

/-- What is planned is carried out. -/
theorem on_applyBatch_of_plan (hon : p.store.offline = false) {b : Batch} {now : Instant}
    {d : Draft} {e : Effect} (hplan : (p.store.draft b).plan b now = .ok (d, e)) :
    (applyBatch b now).on p = (carryOut b e).on p := by
  rw [applyBatch_eq, Run.on_bind_of_ok (on_draftFor_online hon b), hplan]
  rfl

/-- A batch ends alike, but for the contract that a rejection names. -/
theorem sameUpToOrder_batch (hnames : p.store.NamesContracts) (b : Batch) (now : Instant)
    (hashing : Hashing) :
    Reply.SameUpToOrder (((applyBatch b now).on p).1.map .batch)
        (((applyBatch b now).on (p.rehash hashing)).1.map .batch) ∧
      Rearranged ((applyBatch b now).on p).2 ((applyBatch b now).on (p.rehash hashing)).2 := by
  cases hoffline : p.store.offline with
  | true =>
    have hoffline' : (p.rehash hashing).store.offline = true := hoffline
    rw [on_applyBatch_offline hoffline, on_applyBatch_offline hoffline']
    exact ⟨.same _, hashing, rfl⟩
  | false =>
    have hoffline' : (p.rehash hashing).store.offline = false := hoffline
    have hplans : (((p.rehash hashing).store.draft b).plan b now).mapError _ =
        (((p.store.draft b).plan b now).map _).mapError _ :=
      Draft.mapError_planFrom_noting fun _ _ id _ =>
        p.store.concurs_draft_rehash hnames b hashing id
    cases hplan : (p.store.draft b).plan b now with
    | error rejected =>
      obtain ⟨index, r⟩ := rejected
      rw [hplan] at hplans
      obtain ⟨⟨index', r'⟩, hplan', hsame⟩ := mapError_eq_error.1 hplans
      obtain rfl : index' = index := congrArg Prod.fst hsame
      have hsame : r'.anonymous = r.anonymous := congrArg Prod.snd hsame
      rw [on_applyBatch_of_rejected hoffline hplan, on_applyBatch_of_rejected hoffline' hplan']
      refine ⟨?_, hashing, rfl⟩
      rcases Rejection.eq_or_of_anonymous hsame with rfl | ⟨id, expected, actual, actual', rfl, rfl⟩
      · exact .same _
      · exact .mismatch
    | ok planned =>
      obtain ⟨d, e⟩ := planned
      rw [hplan] at hplans
      have hplan' := mapError_eq_ok.1 hplans
      rw [on_applyBatch_of_plan hoffline hplan, on_applyBatch_of_plan hoffline' hplan']
      obtain ⟨hresult, hafter⟩ := Rearranged.interchangeable.batch b e p _ ⟨hashing, rfl⟩
      exact ⟨hresult ▸ .same _, hafter⟩

/-- Stored milestones still name their contract after a batch. -/
theorem BatchEnds.namesContracts {b : Batch} {now : Instant}
    {result : Outcome PlannerError BatchOutcome} (h : BatchEnds p b now result q)
    (hnames : p.store.NamesContracts) : q.store.NamesContracts := by
  cases h with
  | offline => exact hnames
  | rejected => exact hnames
  | idle => exact hnames
  | refused => exact hnames
  | committed _ _ happly => exact hnames.apply happly
  | marked _ _ happly _ hsync => exact (hsync.names_has (hnames.apply happly)).1
  | fault _ _ happly _ hsync => exact (hsync.names_has (hnames.apply happly)).1

end Planner

namespace Request

open Planner

variable {p : Planner}

theorem namesContracts_run (r : Request) (hnames : p.store.NamesContracts) :
    (r.run.on p).2.store.NamesContracts := by
  cases r with
  | about c x => rwa [run, x.on_run, (scheduleEnds p c).store_eq]
  | isAcyclic c => rwa [run, Run.on_map, Planner.on_isAcyclic]
  | order c => rwa [run, Run.on_map, Planner.on_order]
  | timelines cs => rwa [run, Run.on_map, timelines_eq, Run.store_of_mapM store_of_attemptTimeline]
  | trend c now => rwa [run, Run.on_map, Planner.on_trend]
  | batch b now =>
    rw [run, Run.on_map]
    exact (batchEnds p b now).namesContracts hnames
  | sync c =>
    rw [run, Run.on_map]
    exact ((syncEnds p c).names_has hnames).1
  | forget c => exact hnames
  | forgetAll => exact hnames

/-- A request ends alike however the hash maps are arranged, up to what depends on their order. -/
theorem sameUpToOrder_run (r : Request) (hnames : p.store.NamesContracts) (hashing : Hashing) :
    Reply.SameUpToOrder (r.run.on p).1 (r.run.on (p.rehash hashing)).1 ∧
      Rearranged (r.run.on p).2 (r.run.on (p.rehash hashing)).2 := by
  have hsame : ∀ {x : Run Reply}, Run.Respects Rearranged x →
      Reply.SameUpToOrder (x.on p).1 (x.on (p.rehash hashing)).1 ∧
        Rearranged (x.on p).2 (x.on (p.rehash hashing)).2 := fun hx => by
    obtain ⟨hresult, hafter⟩ := hx p _ ⟨hashing, rfl⟩
    exact ⟨hresult ▸ .same _, hafter⟩
  have hrearranged := Rearranged.interchangeable
  cases r with
  | about c x => exact hsame (hrearranged.about c x)
  | isAcyclic c =>
    exact hsame
      (.bind (Rearranged.respects_of_on_eq (on_isAcyclic c) fun _ _ => rfl) fun _ => .pure _)
  | order c =>
    exact hsame (.bind (Rearranged.respects_of_on_eq (on_order c) fun _ _ => rfl) fun _ => .pure _)
  | timelines cs =>
    exact hsame ((Run.Respects.mapM hrearranged.attemptTimeline cs).bind fun _ => .pure _)
  | trend c now =>
    rw [run, Run.on_map, Run.on_map, on_trend, on_trend]
    refine ⟨?_, hashing, rfl⟩
    rcases p.store.trend_rehash p.settings.trendBucket c now hashing with
      heq | ⟨t, t', ht, ht', hsame⟩
    · exact (congrArg (Except.map Reply.trend) heq) ▸ .same _
    · exact (congrArg (Except.map Reply.trend) ht) ▸ (congrArg (Except.map Reply.trend) ht') ▸
        .trend hsame
  | batch b now =>
    rw [run, Run.on_map, Run.on_map]
    exact sameUpToOrder_batch hnames b now hashing
  | sync c => exact hsame ((hrearranged.sync c).bind fun _ => .pure _)
  | forget c => exact hsame ((hrearranged.forget c).bind fun _ => .pure _)
  | forgetAll => exact hsame (hrearranged.clear.bind fun _ => .pure _)

end Request

namespace Planner

variable {p : Planner}

/-- Two answers with the stores after them that are the same, up to what depends on the order of
hash maps, and their arrangement. -/
def SameUpToOrder (x y : Outcome PlannerError Reply × Store) : Prop :=
  Reply.SameUpToOrder x.1 y.1 ∧ ∃ hashing, y.2 = x.2.rehash hashing

/-- The same requests have the same answers and leave the same in the store, however the hash maps
are arranged before each of them, up to what depends on their order. -/
theorem sameUpToOrder_replies (hnames : p.store.NamesContracts) (hashing : Hashing)
    {rs rs' : List (Hashing × Request)} (hrs : rs'.map Prod.snd = rs.map Prod.snd) :
    List.Forall₂ SameUpToOrder (p.replies rs) ((p.rehash hashing).replies rs') := by
  induction rs generalizing p hashing rs' with
  | nil =>
    rw [List.map_nil, List.map_eq_nil_iff] at hrs
    rw [hrs]
    exact .nil
  | cons x rest ih =>
    obtain ⟨h, r⟩ := x
    rw [List.map_cons, List.map_eq_cons_iff] at hrs
    obtain ⟨⟨h', r'⟩, rest', rfl, rfl, hrest⟩ := hrs
    obtain ⟨hresult, h'', hafter⟩ := r'.sameUpToOrder_run (p := p.rehash h) hnames h'
    refine .cons ⟨hresult, h'', congrArg Planner.store hafter⟩ ?_
    change List.Forall₂ _ _ (replies (r'.run.on ((p.rehash h).rehash h')).2 rest')
    rw [hafter]
    exact ih (r'.namesContracts_run (p := p.rehash h) hnames) h'' hrest

end Planner

end Milestones
