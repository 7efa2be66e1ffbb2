import Milestones.CommandLine.Answer
import Milestones.Proofs.CommandLine.CycleText
import Milestones.Proofs.Planner.Oblivious

/-!
# What the exit code tells

Six of the seven commands are about the dependencies of a contract.  Two of them ask for the order
of work and see nothing of durations; the other four ask for the schedule.  How such a command ends
depends on that one question, because what is made of the answer afterwards cannot fail.  So the
exit code tells what the records of the snapshot are like, and code 1 stands for a cycle whichever
of the six commands is asked, and what is printed then shows that cycle.  The seventh is about the
journal of progress and never sees a cycle.

## Main definitions

* `Follows`: a result that succeeds or fails with a schedule or an order of work.
* `Answer.ofResult`: the answer made of what a command returns.
* `Answer.Tells`: what an answer tells about a snapshot.

## Main statements

* `Command.follows_workOrder`, `Command.follows_schedule`: what a command depends on.
* `tells_ofArgs`: the exit codes of all commands.
-/

namespace Milestones

open Outcome

/-- The order of work of the records. -/
def ContractRecords.workOrder (r : ContractRecords) : Outcome ScheduleError WorkOrder := do
  let g ← Outcome.ofExcept .graph r.graph
  Outcome.ofExcept .cycle g.workOrder

/-- The second result is an answer if the first one is.  Otherwise it fails for the same reason. -/
inductive Follows {α β : Type} (x : Outcome ScheduleError α) : Outcome PlannerError β → Prop
  | answered {a : α} {b : β} (h : x = .ok a) : Follows x (.ok b)
  | failed {e : Failure ScheduleError} (h : x = .error e) : Follows x (.error (e.map .schedule))

namespace Follows

variable {α β γ : Type} {x : Outcome ScheduleError α} {y : Outcome PlannerError β}

theorem mapError (x : Outcome ScheduleError α) :
    Follows x (x.mapError (Failure.map PlannerError.schedule)) := by
  cases x with
  | ok a => exact .answered rfl
  | error e => exact .failed rfl

/-- What never fails may come after it. -/
theorem bind (h : Follows x y) {f : β → Outcome PlannerError γ} (hf : ∀ b, ∃ c, f b = .ok c) :
    Follows x (y >>= f) := by
  cases h with
  | failed h => exact .failed h
  | @answered a b h =>
    obtain ⟨c, hc⟩ := hf b
    change Follows x (f b)
    rw [hc]
    exact .answered h

/-- The form of the answer does not matter. -/
theorem map_iff {f : β → γ} : Follows x (y.map f) ↔ Follows x y := by
  constructor
  · intro h
    cases y with
    | ok b =>
      cases h with
      | answered h => exact .answered h
    | error e =>
      cases h with
      | failed h => exact .failed h
  · intro h
    cases h with
    | answered h => exact .answered h
    | failed h => exact .failed h

end Follows

/-! ## Cycles in records -/

namespace ContractRecords

variable {r : ContractRecords}

theorem workOrder_eq_cycle_iff {report : CycleReport} :
    r.workOrder = .error (.refused (.cycle report)) ↔
      ∃ g, r.graph = .ok g ∧ g.workOrder = .error report := by
  rw [workOrder, bind_eq_error]
  constructor
  · rintro (h | ⟨g, hg, h⟩)
    · obtain ⟨_, -, h⟩ := ofExcept_eq_error.1 h
      cases h
    · obtain ⟨_, hreport, h⟩ := ofExcept_eq_error.1 h
      cases h
      exact ⟨g, ofExcept_eq_ok.1 hg, hreport⟩
  · rintro ⟨g, hg, hreport⟩
    exact .inr ⟨g, ofExcept_eq_ok.2 hg, ofExcept_eq_error.2 ⟨report, hreport, rfl⟩⟩

/-- A schedule is refused for the cycles for which there is no order of work. -/
theorem schedule_eq_cycle_iff {report : CycleReport} :
    r.schedule = .error (.refused (.cycle report)) ↔
      ∃ g, r.graph = .ok g ∧ g.workOrder = .error report := by
  rw [schedule, bind_eq_error]
  constructor
  · rintro (h | ⟨g, hg, h⟩)
    · obtain ⟨_, -, h⟩ := ofExcept_eq_error.1 h
      cases h
    · have hg := ofExcept_eq_ok.1 hg
      rcases Graph.compute_eq_refused (Graph.built_of_ofRecords hg).linked h with
        ⟨_, hreport, he⟩ | ⟨_, -, -, he⟩ | ⟨_, he⟩ <;> cases he
      exact ⟨g, hg, hreport⟩
  · rintro ⟨g, hg, hreport⟩
    refine .inr ⟨g, ofExcept_eq_ok.2 hg, ?_⟩
    rw [Schedule.compute, hreport]
    rfl

/-- There is an order of work exactly if the records make a graph without cycles. -/
theorem exists_workOrder_iff :
    (∃ o, r.workOrder = .ok o) ↔ ∃ g, r.graph = .ok g ∧ g.Acyclic := by
  simp only [workOrder, bind_eq_ok, ofExcept_eq_ok]
  rw [exists_comm]
  refine exists_congr fun g => ?_
  rw [exists_and_left]
  refine and_congr_right fun hg => ?_
  exact Graph.exists_workOrder_iff (Graph.built_of_ofRecords hg).linked

/-- There is a report of cycles exactly if the records make a graph with cycles. -/
theorem exists_report_iff :
    (∃ report g, r.graph = .ok g ∧ g.workOrder = .error report) ↔
      ∃ g, r.graph = .ok g ∧ ¬g.Acyclic := by
  rw [exists_comm]
  refine exists_congr fun g => ?_
  rw [exists_and_left]
  refine and_congr_right fun hg => ?_
  rw [← Graph.exists_workOrder_iff (Graph.built_of_ofRecords hg).linked]
  cases g.workOrder <;> simp

end ContractRecords

/-! ## Questions that are always answered -/

/-- Settings that are in order have weights that are in order. -/
theorem Settings.validate_riskWeights {settings : Settings} (h : settings.validate = .ok ()) :
    settings.riskWeights.validate = .ok () := by
  simp only [validate] at h
  split at h
  · cases h
  split at h
  · split at h
    · cases h
    · exact mapError_eq_ok.1 h
  · exact mapError_eq_ok.1 h

/-- With such weights, every question is answered from a schedule. -/
theorem Question.exists_answer (x : Question) {settings : Settings}
    (h : settings.validate = .ok ()) (s : Schedule) : ∃ reply, x.answer settings s = .ok reply := by
  cases x with
  | risk =>
    have hweights := Settings.validate_riskWeights h
    rw [answer, RiskAssessment.compute, hweights]
    exact ⟨_, rfl⟩
  | _ => exact ⟨_, rfl⟩

namespace CommandLine

/-! ## Answers -/

/-- The answer made of what a command returns. -/
def Answer.ofResult (json : Bool) (title : MilestoneId → String) :
    Outcome PlannerError (Datum × String) → Answer
  | .ok (data, plain) => .printed (if json then data.toPrettyJson else plain)
  | .error (.fault _) => .fault
  | .error (.refused e) =>
    match e.cycle? with
    | some r =>
      { Answer.printed (if json then (cycleDatum r).toPrettyJson else r.listing title) with
        exitCode := 1 }
    | none => .refused (errorMessages e)

theorem answerAbout_eq {c : Command} {json : Bool} {s : Snapshot} {settings : Settings}
    {now : Instant} {hashing : Hashing} {p : Planner}
    (hp : Planner.create (.ofSnapshot s hashing) settings = .ok p) :
    answerAbout c json s settings now hashing =
      .ofResult json (titleOf s) ((c.ask s.contractId now (titleOf s)).on p).1 := by
  rw [answerAbout, hp]
  rfl

namespace Answer

variable {α : Type} {json : Bool} {title : MilestoneId → String}
  {result : Outcome PlannerError (Datum × String)} {x : Outcome ScheduleError α}
  (h : Follows x result)
include h

theorem ofResult_of_cycle {report : CycleReport} (hx : x = .error (.refused (.cycle report))) :
    ofResult json title result =
      { exitCode := 1
        output := (if json then (cycleDatum report).toPrettyJson else report.listing title) ++
          "\n" } := by
  cases h with
  | answered h => cases h.symm.trans hx
  | failed h =>
    cases h.symm.trans hx
    rfl

omit h in
/-- The exit code for a schedule or an order of work. -/
def exitCodeFor : Outcome ScheduleError α → Nat
  | .ok _ => 0
  | .error (.refused (.cycle _)) => 1
  | .error (.refused _) => 2
  | .error (.fault _) => 101

theorem exitCode_ofResult : (ofResult json title result).exitCode = exitCodeFor x := by
  cases h with
  | answered h => rw [h]; rfl
  | @failed e h =>
    rw [h]
    cases e with
    | fault f => rfl
    | refused e => cases e <;> rfl

omit h in
theorem exitCodeFor_eq_zero_iff : exitCodeFor x = 0 ↔ ∃ a, x = .ok a := by
  rcases x with (e | f) | a
  · cases e <;> simp [exitCodeFor]
  · simp [exitCodeFor]
  · simp [exitCodeFor]

omit h in
theorem exitCodeFor_eq_one_iff : exitCodeFor x = 1 ↔
    ∃ report, x = .error (.refused (.cycle report)) := by
  rcases x with (e | f) | a
  · cases e <;> simp [exitCodeFor]
  · simp [exitCodeFor]
  · simp [exitCodeFor]

end Answer

/-! ## Commands -/

namespace Command

/-- The commands that ask for the order of work. -/
def IsOrdering (c : Command) : Prop := c = validate ∨ c = order

/-- The commands that ask for the schedule. -/
def IsScheduling (c : Command) : Prop := c = timeline ∨ c = stats ∨ c = risk ∨ c = delays

theorem isOrdering_or_isScheduling {c : Command} (h : c ≠ trend) :
    c.IsOrdering ∨ c.IsScheduling := by
  cases c <;> simp [IsOrdering, IsScheduling] at h ⊢

variable {c : Command} {s : Snapshot} {settings : Settings} {hashing : Hashing} {p : Planner}
  (hp : Planner.create (.ofSnapshot s hashing) settings = .ok p)
include hp

/-- The settings of a planner are in order. -/
theorem validate_of_create : p.settings.validate = .ok () := by
  obtain ⟨_, hvalid, -⟩ := bind_eq_ok.1 hp
  rw [(Planner.create_eq_ok hp).1]
  exact ofExcept_eq_ok.1 hvalid

/-- A planner for a snapshot is truthful, and has the records of that snapshot. -/
theorem truthful_of_create : p.Truthful ∧ p.store.offline = false ∧
    p.store.records s.contractId = .ofSnapshot s := by
  obtain ⟨-, hstore, hmemory⟩ := Planner.create_eq_ok hp
  rw [hstore]
  refine ⟨.of_entries hmemory, rfl, ?_⟩
  rw [Store.records_ofSnapshot, if_pos rfl]

theorem graph_of_create : p.store.graph s.contractId =
    Outcome.ofExcept (fun e => .schedule (.graph e)) (ContractRecords.ofSnapshot s).graph := by
  obtain ⟨-, hon, hrecords⟩ := truthful_of_create hp
  rw [Store.graph, hon, hrecords]
  rfl

/-- The planner has the order of work of the records. -/
theorem on_order_of_create : (Planner.order s.contractId).on p =
    ((((ContractRecords.ofSnapshot s).workOrder).mapError (Failure.map .schedule)).map
      WorkOrder.ids, p) := by
  obtain ⟨htruthful, hon, -⟩ := truthful_of_create hp
  rw [htruthful.on_order hon, graph_of_create hp, ContractRecords.workOrder]
  cases (ContractRecords.ofSnapshot s).graph with
  | error e => rfl
  | ok g =>
    refine Prod.ext ?_ rfl
    change (Outcome.ofExcept (fun r => PlannerError.schedule (.cycle r)) g.workOrder).map _ =
      ((Outcome.ofExcept ScheduleError.cycle g.workOrder).mapError _).map _
    cases g.workOrder <;> rfl

/-- Whether there are cycles is asked first, and where there are some the order of work is asked
for after that. -/
theorem on_ask_validate (now : Instant) (title : MilestoneId → String) :
    ((validate.ask s.contractId now title).on p).1 =
      ((ContractRecords.ofSnapshot s).workOrder.mapError (Failure.map .schedule)).map fun _ =>
        (Datum.record [("valid", .bool true)], "dependency graph is acyclic") := by
  obtain ⟨htruthful, hon, -⟩ := truthful_of_create hp
  have horder := on_order_of_create hp
  have hacyclic := htruthful.on_isAcyclic hon s.contractId
  rw [graph_of_create hp] at hacyclic
  rw [ContractRecords.workOrder] at horder ⊢
  cases hg : (ContractRecords.ofSnapshot s).graph with
  | error e =>
    rw [hg] at hacyclic
    rw [ask, Planner.Run.on_bind_of_error hacyclic]
    rfl
  | ok g =>
    rw [hg] at hacyclic horder
    rw [ask, Planner.Run.on_bind_of_ok hacyclic, Graph.isAcyclic]
    change (Planner.order s.contractId).on p =
      (((Outcome.ofExcept ScheduleError.cycle g.workOrder).mapError (Failure.map .schedule)).map
        WorkOrder.ids, p) at horder
    change _ = ((Outcome.ofExcept ScheduleError.cycle g.workOrder).mapError _).map _
    cases ho : g.workOrder with
    | ok o => rfl
    | error report =>
      rw [ho] at horder
      exact congrArg Prod.fst (Planner.Run.on_bind_of_error horder _)

/-- The answer of an ordering command depends on the order of work alone. -/
theorem follows_workOrder (hc : c.IsOrdering) (now : Instant) (title : MilestoneId → String) :
    Follows (ContractRecords.ofSnapshot s).workOrder
      ((c.ask s.contractId now title).on p).1 := by
  rcases hc with rfl | rfl
  · rw [on_ask_validate hp]
    exact Follows.map_iff.2 (Follows.mapError _)
  · rw [ask, Planner.Run.on_map, on_order_of_create hp]
    exact Follows.map_iff.2 (Follows.map_iff.2 (Follows.mapError _))

/-- A question is answered if there is a schedule. -/
theorem follows_question (x : Question) :
    Follows (ContractRecords.ofSnapshot s).schedule ((x.run s.contractId).on p).1 := by
  obtain ⟨htruthful, hon, hrecords⟩ := truthful_of_create hp
  have hends := Planner.scheduleEnds p s.contractId
  rw [x.on_run, htruthful.scheduleEnds_eq hon hends, hrecords]
  exact (Follows.mapError _).bind (x.exists_answer (validate_of_create hp))

/-- What is made of the answer to a question depends on the schedule alone. -/
theorem follows_of_run_eq {α β : Type} {x : Question} {run : Planner.Run α} {wrap : α → Reply}
    (hx : x.run s.contractId = do return wrap (← run)) (f : α → β) :
    Follows (ContractRecords.ofSnapshot s).schedule
      ((do return f (← run) : Planner.Run β).on p).1 := by
  have h := follows_question hp x
  rw [hx, Planner.Run.on_map, Follows.map_iff] at h
  rw [Planner.Run.on_map]
  exact Follows.map_iff.2 h

/-- The answer of a scheduling command depends on the schedule alone. -/
theorem follows_schedule (hc : c.IsScheduling) (now : Instant) (title : MilestoneId → String) :
    Follows (ContractRecords.ofSnapshot s).schedule
      ((c.ask s.contractId now title).on p).1 := by
  rcases hc with rfl | rfl | rfl | rfl
  · exact follows_of_run_eq hp (x := .timeline) rfl _
  · exact follows_of_run_eq hp (x := .completion now) rfl _
  · exact follows_of_run_eq hp (x := .risk) rfl _
  · exact follows_of_run_eq hp (x := .delays now) rfl _

omit hp in
/-- A trend is never refused for a cycle. -/
theorem cycle?_of_on_trend {contract : ContractId} {now : Instant} {title : MilestoneId → String}
    {e : PlannerError}
    (h : ((trend.ask contract now title).on p).1 = .error (.refused e)) : e.cycle? = none := by
  rw [ask, Planner.Run.on_map, map_eq_error, Planner.on_trend, Store.trend] at h
  split at h
  · cases h
    rfl
  · obtain ⟨e', -, he⟩ := mapError_eq_error.1 h
    cases e' with
    | fault f => cases he
    | refused e' =>
      cases he
      rfl

end Command

/-! ## What an answer tells -/

/-- What the answer to a command tells about a snapshot. -/
structure Answer.Tells (a : Answer) (c : Command) (json : Bool) (s : Snapshot) : Prop where
  /-- Code 1 stands for a graph with cycles. -/
  cyclic_iff : c ≠ .trend →
    (a.exitCode = 1 ↔ ∃ g, (ContractRecords.ofSnapshot s).graph = .ok g ∧ ¬g.Acyclic)
  /-- Then these cycles are printed. -/
  cycle_printed : c ≠ .trend → ∀ g report, (ContractRecords.ofSnapshot s).graph = .ok g →
    g.workOrder = .error report →
    a = { exitCode := 1
          output :=
            (if json then (cycleDatum report).toPrettyJson else report.listing (titleOf s)) ++
              "\n" }
  /-- What is printed has the whole report. -/
  cycle_shown : c ≠ .trend → ∀ g report, (ContractRecords.ofSnapshot s).graph = .ok g →
    g.workOrder = .error report →
    if json then report.IsReadFrom a.output
    else report.IsListedIn (ContractRecords.ofSnapshot s).title a.output
  /-- Whether an ordering command succeeds does not depend on durations. -/
  ordered_iff : c.IsOrdering →
    (a.exitCode = 0 ↔ ∃ g, (ContractRecords.ofSnapshot s).graph = .ok g ∧ g.Acyclic)
  /-- Whether a scheduling command succeeds depends on the schedule. -/
  scheduled_iff : c.IsScheduling →
    (a.exitCode = 0 ↔ ∃ schedule, (ContractRecords.ofSnapshot s).schedule = .ok schedule)
  /-- Records that make no graph are an error of every command that asks for it. -/
  graph_error : c ≠ .trend → ∀ e, (ContractRecords.ofSnapshot s).graph = .error e → a.exitCode = 2
  /-- Apart from cycles, what stands against a schedule is an error as well. -/
  schedule_error : c.IsScheduling → ∀ e,
    (ContractRecords.ofSnapshot s).schedule = .error (.refused e) →
    (∀ report, e ≠ .cycle report) → a.exitCode = 2
  /-- The trend knows no cycles. -/
  trend_ne_one : c = .trend → a.exitCode ≠ 1

namespace Answer.Tells

variable {c : Command} {json : Bool} {s : Snapshot} {title : MilestoneId → String}
  {result : Outcome PlannerError (Datum × String)}

/-- The printed report is shown. -/
theorem cycle_shown_of_eq {a : Answer} {report : CycleReport}
    (ha : a = { exitCode := 1
                output := (if json then (cycleDatum report).toPrettyJson
                  else report.listing (titleOf s)) ++ "\n" }) :
    if json then report.IsReadFrom a.output
    else report.IsListedIn (ContractRecords.ofSnapshot s).title a.output := by
  rw [ha, ← titleOf_eq]
  cases json with
  | true => exact report.isReadFrom_toPrettyJson
  | false => exact report.isListedIn_listing (titleOf s)

theorem of_workOrder (hc : c.IsOrdering)
    (h : Follows (ContractRecords.ofSnapshot s).workOrder result) :
    (ofResult json (titleOf s) result).Tells c json s where
  cyclic_iff _ := by
    rw [exitCode_ofResult h, exitCodeFor_eq_one_iff, ← ContractRecords.exists_report_iff]
    exact exists_congr fun report => ContractRecords.workOrder_eq_cycle_iff
  cycle_printed _ g report hg hreport :=
    ofResult_of_cycle h (ContractRecords.workOrder_eq_cycle_iff.2 ⟨g, hg, hreport⟩)
  cycle_shown _ g report hg hreport :=
    cycle_shown_of_eq
      (ofResult_of_cycle h (ContractRecords.workOrder_eq_cycle_iff.2 ⟨g, hg, hreport⟩))
  ordered_iff _ := by
    rw [exitCode_ofResult h, exitCodeFor_eq_zero_iff, ContractRecords.exists_workOrder_iff]
  scheduled_iff hs := by
    rcases hc with rfl | rfl <;> simp [Command.IsScheduling] at hs
  graph_error _ e he := by
    rw [exitCode_ofResult h, ContractRecords.workOrder, he]
    rfl
  schedule_error hs := by
    rcases hc with rfl | rfl <;> simp [Command.IsScheduling] at hs
  trend_ne_one ht := by
    rcases hc with rfl | rfl <;> cases ht

theorem of_schedule (hc : c.IsScheduling)
    (h : Follows (ContractRecords.ofSnapshot s).schedule result) :
    (ofResult json (titleOf s) result).Tells c json s where
  cyclic_iff _ := by
    rw [exitCode_ofResult h, exitCodeFor_eq_one_iff, ← ContractRecords.exists_report_iff]
    exact exists_congr fun report => ContractRecords.schedule_eq_cycle_iff
  cycle_printed _ g report hg hreport :=
    ofResult_of_cycle h (ContractRecords.schedule_eq_cycle_iff.2 ⟨g, hg, hreport⟩)
  cycle_shown _ g report hg hreport :=
    cycle_shown_of_eq
      (ofResult_of_cycle h (ContractRecords.schedule_eq_cycle_iff.2 ⟨g, hg, hreport⟩))
  ordered_iff ho := by
    rcases hc with rfl | rfl | rfl | rfl <;> simp [Command.IsOrdering] at ho
  scheduled_iff _ := by
    rw [exitCode_ofResult h, exitCodeFor_eq_zero_iff]
  graph_error _ e he := by
    rw [exitCode_ofResult h, ContractRecords.schedule, he]
    rfl
  schedule_error _ e he hcycle := by
    rw [exitCode_ofResult h, he]
    cases e with
    | cycle report => exact absurd rfl (hcycle report)
    | _ => rfl
  trend_ne_one ht := by
    rcases hc with rfl | rfl | rfl | rfl <;> cases ht

theorem of_trend (h : ∀ e, result = .error (.refused e) → e.cycle? = none) :
    (ofResult json title result).Tells .trend json s where
  cyclic_iff ht := absurd rfl ht
  cycle_printed ht := absurd rfl ht
  cycle_shown ht := absurd rfl ht
  ordered_iff ho := by simp [Command.IsOrdering] at ho
  scheduled_iff hs := by simp [Command.IsScheduling] at hs
  graph_error ht := absurd rfl ht
  schedule_error hs := by simp [Command.IsScheduling] at hs
  trend_ne_one _ := by
    rcases result with (e | f) | ⟨data, plain⟩
    · simp [ofResult, h e rfl, refused]
    · simp [ofResult, fault]
    · simp [ofResult, printed]

end Answer.Tells

/-- If the snapshot, the settings and the time of a request are readable, and a planner can be made
with the settings, then the answer to the request tells all this about the snapshot. -/
theorem tells_ofArgs {files : Files} {clock now : Instant} {args : List String} {r : Request}
    {s : Snapshot} {settings : Settings} {hashing : Hashing} {p : Planner}
    (hargs : Invocation.ofArgs args = .run r)
    (hsnapshot : readSnapshot files r.snapshot = .ok s)
    (hsettings : readSettings files r.config = .ok settings)
    (hnow : readNow clock r.now = .ok now)
    (hp : Planner.create (.ofSnapshot s hashing) settings = .ok p) :
    (Answer.ofArgs files clock args hashing).Tells r.command r.json s := by
  have hanswer : Answer.ofArgs files clock args hashing =
      .ofResult r.json (titleOf s) ((r.command.ask s.contractId now (titleOf s)).on p).1 := by
    rw [← answerAbout_eq hp, Answer.ofArgs, hargs]
    change answerRequest files clock r hashing = _
    rw [answerRequest, hsnapshot, hsettings, hnow]
    rfl
  rw [hanswer]
  by_cases hc : r.command = .trend
  · rw [hc]
    exact .of_trend fun e he => Command.cycle?_of_on_trend he
  rcases Command.isOrdering_or_isScheduling hc with ho | hs
  · exact .of_workOrder ho (Command.follows_workOrder hp ho now _)
  · exact .of_schedule hs (Command.follows_schedule hp hs now _)

/-! A milestone that waits for itself. -/

/-- The text of a snapshot, by position: the contract, its one milestone, and the dependency of that
milestone on itself. -/
def selfLinkText : String :=
  "[\"00000000000000000000000000000001\"," ++
    "[[\"00000000000000000000000000000002\",\"00000000000000000000000000000001\",\"\"]]," ++
    "[[\"00000000000000000000000000000003\",\"00000000000000000000000000000002\"," ++
    "\"00000000000000000000000000000002\"]]]"

/-- The data in the text. -/
def selfLinkDatum : Datum :=
  .list [.text "00000000000000000000000000000001",
    .list [.list [.text "00000000000000000000000000000002",
      .text "00000000000000000000000000000001", .text ""]],
    .list [.list [.text "00000000000000000000000000000003",
      .text "00000000000000000000000000000002", .text "00000000000000000000000000000002"]]]

/-- The snapshot in the data. -/
def selfLink : Snapshot where
  contractId := 1
  milestones := [{ id := 2, contractId := 1, title := "" }]
  dependencies := [⟨3, 2, 2, .prerequisite⟩]

theorem readSnapshot_eq_ok {files : Files} {path content : String} {d : Datum} {s : Snapshot}
    (hfile : files path = .ok content) (hjson : Datum.ofJson? content = some d)
    (hread : Snapshot.ofDatum? d = some s) : readSnapshot files path = .ok s := by
  simp only [readSnapshot, hfile, hjson, Option.bind_some, hread]

set_option maxRecDepth 20000 in
theorem ofJson?_selfLinkText : Datum.ofJson? selfLinkText = some selfLinkDatum := by cbv

theorem ofDatum?_selfLinkDatum : Snapshot.ofDatum? selfLinkDatum = some selfLink := by cbv

theorem exitCode_selfLink :
    Invocation.ofArgs ["risk", "--snapshot", "s.json"] =
        .run { command := .risk, snapshot := "s.json" } ∧
      (Answer.ofArgs (fun _ => .ok selfLinkText) .epoch ["risk", "--snapshot", "s.json"]).exitCode =
        1 := by
  have hargs : Invocation.ofArgs ["risk", "--snapshot", "s.json"] =
      .run { command := .risk, snapshot := "s.json" } := by cbv
  have hread : readSnapshot (fun _ => .ok selfLinkText) "s.json" = .ok selfLink :=
    readSnapshot_eq_ok rfl ofJson?_selfLinkText ofDatum?_selfLinkDatum
  have htells : (Answer.ofArgs (fun _ => .ok selfLinkText) .epoch
      ["risk", "--snapshot", "s.json"]).Tells .risk false selfLink :=
    tells_ofArgs hargs hread rfl rfl rfl
  have hcycle : ∃ g, (ContractRecords.ofSnapshot selfLink).graph = .ok g ∧ ¬g.Acyclic :=
    ⟨_, rfl, fun h => h 2 (.single (by decide))⟩
  exact ⟨hargs, (htells.cyclic_iff (by decide)).2 hcycle⟩

end CommandLine

end Milestones
