import Milestones.CommandLine.Answer
import Milestones.Proofs.Datum.Json
import Milestones.Proofs.RecordId

/-!
# Reports of cycles in print

A report of cycles is printed as JSON or as plain lines.  The JSON text reads back as the whole
report.  The lines name every milestone of the report with its title, and the number of those that
are blocked.

## Main definitions

* `CycleReport.IsReadFrom`: a JSON text has the report.
* `CycleReport.IsListedIn`: plain lines have the report.

## Main statements

* `CycleReport.isReadFrom_toPrettyJson`, `CycleReport.isListedIn_listing`: so do the printed texts.
-/

namespace Milestones

open Datum

/-! ## Reading the JSON text -/

namespace Datum

theorem allPlain_iff {room : Nat} {items : List Datum} :
    allPlain room items = true ↔ ∀ d ∈ items, d.isPlain room = true := by
  induction items with
  | nil => simp [allPlain]
  | cons d items ih => simp [allPlain, ih]

/-- Identifiers are printed as texts. -/
theorem isPlain_ids {kind : RecordKind} (room : Nat) (ids : List (RecordId kind)) :
    isPlain (room + 1) (list (ids.map ofId)) = true := by
  rw [isPlain, allPlain_iff]
  intro d hd
  obtain ⟨id, -, rfl⟩ := List.mem_map.1 hd
  rw [ofId, isPlain]

/-- Identifiers are read from their texts. -/
theorem list?_ids {kind : RecordKind} (ids : List (RecordId kind)) :
    list? id? (list (ids.map ofId)) = some ids := by
  have hread : id? ∘ ofId = (some : RecordId kind → _) := funext fun id => by
    rw [Function.comp_apply, ofId, id?]
    exact id.ofText?_text
  rw [list?, Outcome.mapM_eq_some_iff, List.map_map, hread]

end Datum

namespace CycleReport

/-- The text is JSON for a record which says that the dependencies are not valid, and which has the
lists of the report. -/
def IsReadFrom (r : CycleReport) (output : String) : Prop :=
  ∃ fields, Datum.ofJson? output = some (.record fields) ∧
    fields.lookup "valid" = some (.bool false) ∧
    (fields.lookup "cycle_members").bind (list? id?) = some r.members ∧
    (fields.lookup "cycles").bind (list? (list? id?)) = some r.groups ∧
    (fields.lookup "blocked").bind (list? id?) = some r.blocked

theorem isPlain_cycleDatum (r : CycleReport) :
    (CommandLine.cycleDatum r).isPlain Json.nestingLimit = true := by
  have hgroups : isPlain 126 (list (r.groups.map fun g => list (g.map ofId))) = true := by
    rw [isPlain, allPlain_iff]
    intro d hd
    obtain ⟨g, -, rfl⟩ := List.mem_map.1 hd
    exact isPlain_ids 124 g
  have hvalid : isPlain 126 (bool false) = true := by rw [isPlain]
  rw [CommandLine.cycleDatum, Json.nestingLimit, isPlain]
  simp only [allFieldsPlain, isPlain_ids 125, hgroups, hvalid, Bool.and_self]

theorem isReadFrom_toPrettyJson (r : CycleReport) :
    r.IsReadFrom ((CommandLine.cycleDatum r).toPrettyJson ++ "\n") := by
  have hgroups : list? (list? id?) (list (r.groups.map fun g => list (g.map ofId))) =
      some r.groups := by
    rw [list?, Outcome.mapM_eq_some_iff, List.map_map]
    exact List.map_congr_left fun g _ => list?_ids g
  exact ⟨_, ofJson?_toPrettyJson r.isPlain_cycleDatum, rfl, list?_ids r.members, hgroups,
    list?_ids r.blocked⟩

/-! ## Plain lines -/

/-- The text is one line with the number of milestones on cycles, one for each of them, and where
others are blocked one with their number. -/
def IsListedIn (r : CycleReport) (title : MilestoneId → String) (output : String) : Prop :=
  output = "dependency cycle involving " ++ toString r.members.length ++ " milestone(s):\n" ++
    String.join (r.members.map fun id => "  " ++ id.text ++ " " ++ title id ++ "\n") ++
    if r.blocked = [] then ""
    else "blocked behind the cycle: " ++ toString r.blocked.length ++ "\n"

/-- Lines with breaks between them and a break at the end are lines that end with breaks. -/
theorem joinLines_cons_append (line : String) (lines : List String) :
    CommandLine.joinLines (line :: lines) ++ "\n" =
      line ++ "\n" ++ String.join (lines.map (· ++ "\n")) := by
  induction lines generalizing line with
  | nil => simp [CommandLine.joinLines]
  | cons next lines ih =>
    rw [CommandLine.joinLines, String.intercalate_cons_cons, String.append_assoc,
      ← CommandLine.joinLines, ih, List.map_cons, String.join_cons]

theorem isListedIn_listing (r : CycleReport) (title : MilestoneId → String) :
    r.IsListedIn title (r.listing title ++ "\n") := by
  rw [IsListedIn, listing, List.cons_append, joinLines_cons_append, List.map_append, List.map_map,
    String.join_append]
  by_cases hblocked : r.blocked = []
  · simp [hblocked, Function.comp_def, String.append_assoc]
  · simp [hblocked, Function.comp_def, String.append_assoc]

end CycleReport

/-- The title under which a milestone stands in the records. -/
def ContractRecords.title (r : ContractRecords) (id : MilestoneId) : String :=
  ((r.milestones.get? id).map Milestone.title).getD ""

theorem CommandLine.titleOf_eq (s : Snapshot) :
    titleOf s = (ContractRecords.ofSnapshot s).title := by
  funext id
  rw [ContractRecords.title, ContractRecords.ofSnapshot, Table.get?_ofList]
  rfl

end Milestones
