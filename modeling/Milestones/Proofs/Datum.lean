import Milestones.Datum.Json
import Milestones.Proofs.Outcome

/-!
# Structured data that is read back

JSON has no number for what is not finite, so a datum changes where it becomes JSON.  What was
written is read back from there, field by field, as a record has just the fields that its reader
knows.

## Main definitions

* `Datum.jsonForm`: a datum as JSON has it.
* `Datum.ReadsBack`: what is written of one value is read back as another one, and is what would be
  written of that.

## Main statements

* `Json.compact_jsonForm`, `Json.pretty_jsonForm`: a datum and its JSON form have the same text.
* `Datum.ReadsBack.list`: items that are read back make a list that is read back.
* `Datum.fields?_record`, `Datum.untag?_record`: the fields of a record that was written.
* `Fields.required?_bind`, `Fields.given?_bind`: reading on after a field.
-/

namespace Milestones

namespace Datum

/-! ## Data as JSON -/

mutual
/-- A datum as JSON has it, with null for what JSON has no form for. -/
def jsonForm : Datum → Datum
  | null => null
  | bool b => bool b
  | int n => int n
  | float x => if x.isFinite then float x else null
  | text s => text s
  | list items => list (jsonItems items)
  | record fields => record (jsonFields fields)
  | unreadable => null

/-- `jsonForm` of every item. -/
def jsonItems : List Datum → List Datum
  | [] => []
  | d :: rest => jsonForm d :: jsonItems rest

/-- `jsonForm` of every field. -/
def jsonFields : List (String × Datum) → List (String × Datum)
  | [] => []
  | (name, d) :: rest => (name, jsonForm d) :: jsonFields rest
end

theorem jsonItems_eq_map (items : List Datum) : jsonItems items = items.map jsonForm := by
  induction items with
  | nil => rfl
  | cons d rest ih => rw [jsonItems, ih, List.map_cons]

theorem jsonForm_float {x : Float} (hx : x.isFinite = true) : jsonForm (float x) = float x :=
  if_pos hx

theorem map_fst_jsonFields (fields : List (String × Datum)) :
    (jsonFields fields).map Prod.fst = fields.map Prod.fst := by
  induction fields with
  | nil => rfl
  | cons f rest ih =>
    cases f
    rw [jsonFields, List.map_cons, ih, List.map_cons]

theorem lookup_jsonFields (fields : List (String × Datum)) (name : String) :
    (jsonFields fields).lookup name = (fields.lookup name).map jsonForm := by
  induction fields with
  | nil => rfl
  | cons f rest ih =>
    obtain ⟨other, d⟩ := f
    rw [jsonFields, List.lookup_cons, List.lookup_cons, ih]
    cases name == other <;> rfl

mutual
/-- Nothing of the JSON form is unreadable. -/
theorem isReadable_jsonForm : ∀ d : Datum, d.jsonForm.isReadable = true
  | null => rfl
  | bool _ => rfl
  | int _ => rfl
  | float x => by
    rw [jsonForm]
    split <;> rfl
  | text _ => rfl
  | list items => allReadable_jsonItems items
  | record fields => allFieldsReadable_jsonFields fields
  | unreadable => rfl

theorem allReadable_jsonItems : ∀ items : List Datum, allReadable (jsonItems items) = true
  | [] => rfl
  | d :: rest => by
    rw [jsonItems, allReadable, isReadable_jsonForm d, allReadable_jsonItems rest, Bool.and_true]

theorem allFieldsReadable_jsonFields :
    ∀ fields : List (String × Datum), allFieldsReadable (jsonFields fields) = true
  | [] => rfl
  | (_, d) :: rest => by
    rw [jsonFields, allFieldsReadable, isReadable_jsonForm d, allFieldsReadable_jsonFields rest,
      Bool.and_true]
end

end Datum

namespace Json

open Datum

theorem numeral_of_not_isFinite {x : Float} (hx : ¬x.isFinite = true) : numeral x = "null" :=
  if_neg hx

mutual
/-- A datum and its JSON form have the same text on one line. -/
theorem compact_jsonForm : ∀ d : Datum, compact d.jsonForm = compact d
  | .null => rfl
  | .bool _ => rfl
  | .int _ => rfl
  | .float x => by
    rw [jsonForm]
    split
    · rfl
    · exact (numeral_of_not_isFinite ‹_›).symm
  | .text _ => rfl
  | .list items => by rw [jsonForm, compact, compact, compactItems_jsonItems]
  | .record fields => by rw [jsonForm, compact, compact, compactFields_jsonFields]
  | .unreadable => rfl

theorem compactItems_jsonItems (first : Bool) :
    ∀ items : List Datum, compactItems first (jsonItems items) = compactItems first items
  | [] => rfl
  | d :: rest => by
    rw [jsonItems, compactItems, compactItems, compact_jsonForm d, compactItems_jsonItems false rest]

theorem compactFields_jsonFields (first : Bool) : ∀ fields : List (String × Datum),
    compactFields first (jsonFields fields) = compactFields first fields
  | [] => rfl
  | (_, d) :: rest => by
    rw [jsonFields, compactFields, compactFields, compact_jsonForm d,
      compactFields_jsonFields false rest]
end

mutual
/-- A datum and its JSON form have the same text with one item or field a line. -/
theorem pretty_jsonForm (level : Nat) : ∀ d : Datum, pretty level d.jsonForm = pretty level d
  | .null => rfl
  | .bool _ => rfl
  | .int _ => rfl
  | .float x => by
    rw [jsonForm]
    split
    · rfl
    · rw [pretty, pretty, numeral_of_not_isFinite ‹_›]
  | .text _ => rfl
  | .list [] => rfl
  | .list (d :: rest) => by
    have h := prettyItems_jsonItems (level + 1) true (d :: rest)
    rw [jsonForm, jsonItems, pretty, pretty, ← jsonItems, h] <;> nofun
  | .record [] => rfl
  | .record (f :: rest) => by
    have h := prettyFields_jsonFields (level + 1) true (f :: rest)
    rw [jsonForm, jsonFields, pretty, pretty, ← jsonFields, h] <;> nofun
  | .unreadable => rfl

theorem prettyItems_jsonItems (level : Nat) (first : Bool) : ∀ items : List Datum,
    prettyItems level first (jsonItems items) = prettyItems level first items
  | [] => rfl
  | d :: rest => by
    rw [jsonItems, prettyItems, prettyItems, pretty_jsonForm level d,
      prettyItems_jsonItems level false rest]

theorem prettyFields_jsonFields (level : Nat) (first : Bool) : ∀ fields : List (String × Datum),
    prettyFields level first (jsonFields fields) = prettyFields level first fields
  | [] => rfl
  | (_, d) :: rest => by
    rw [jsonFields, prettyFields, prettyFields, pretty_jsonForm level d,
      prettyFields_jsonFields level false rest]
end

end Json

namespace Datum

/-! ## Records -/

/-- A record that has just the fields that are asked for is read whole. -/
theorem fields?_record (l : Leniency) {names : List String} {fields : List (String × Datum)}
    (hnodup : names.Nodup) (hnames : fields.map Prod.fst = names) :
    (record fields).jsonForm.fields? l names = some (jsonFields fields) := by
  have hkeys : (jsonFields fields).map Prod.fst = names := by
    rw [map_fst_jsonFields, hnames]
  have hknown : (jsonFields fields).filter (fun f => names.contains f.1) = jsonFields fields := by
    rw [List.filter_eq_self]
    intro f hf
    rw [List.contains_iff_mem, ← hkeys]
    exact List.mem_map_of_mem hf
  rw [← hkeys] at hnodup
  simp only [jsonForm, fields?, hknown, if_pos hnodup]

theorem fields?_record_bind {α : Type} {l : Leniency} {names : List String}
    {fields : List (String × Datum)} {f : Fields → Option α} {r : α} (hnodup : names.Nodup)
    (hnames : fields.map Prod.fst = names) (hf : f (jsonFields fields) = some r) :
    (record fields).jsonForm.fields? l names >>= f = some r :=
  (Outcome.bind_of_eq_some (fields?_record l hnodup hnames)).trans hf

/-- A tag in front of other fields is taken off. -/
theorem untag?_record {tag s : String} {fields : List (String × Datum)}
    (htag : fields.lookup tag = none) :
    (record ((tag, text s) :: fields)).jsonForm.untag? tag = some (s, (record fields).jsonForm) := by
  have hother : ∀ f ∈ jsonFields fields, f.1 ≠ tag := by
    intro f hf
    have hlookup : (jsonFields fields).lookup tag = none := by
      rw [lookup_jsonFields, htag, Option.map_none]
    exact Ne.symm (by simpa using List.lookup_eq_none_iff.1 hlookup f hf)
  have hnone : (jsonFields fields).filter (fun f => f.1 == tag) = [] := by
    rw [List.filter_eq_nil_iff]
    intro f hf
    simp [hother f hf]
  have hrest : (jsonFields fields).filter (fun f => f.1 != tag) = jsonFields fields := by
    rw [List.filter_eq_self]
    intro f hf
    simp [hother f hf]
  have hreadable := isReadable_jsonForm (record ((tag, text s) :: fields))
  rw [jsonForm, jsonFields, jsonForm] at hreadable ⊢
  simp only [untag?, hreadable, List.filter_cons, beq_self_eq_true, bne_self_eq_false, hnone, hrest,
    Bool.not_true, Bool.false_eq_true, if_false, if_true]
  rfl

/-! ## Values -/

/-- What is written of `a` is read back as `b`, and it is what is written of `b`. -/
structure ReadsBack {α : Type} (write : α → Datum) (read : Datum → Option α) (a b : α) : Prop where
  read_eq : read (write a).jsonForm = some b
  write_eq : write b = write a

namespace ReadsBack

variable {α : Type} {write : α → Datum} {read : Datum → Option α} {cut : α → α}

/-- A list is read back if its items are. -/
theorem list_map {as : List α} (h : ∀ a ∈ as, ReadsBack write read a (cut a)) :
    ReadsBack (fun as => .list (as.map write)) (list? read) as (as.map cut) where
  read_eq := by
    rw [jsonForm, jsonItems_eq_map, list?, Outcome.mapM_eq_some_iff, List.map_map, List.map_map,
      List.map_map]
    exact List.map_congr_left fun a ha => (h a ha).read_eq
  write_eq := by
    rw [List.map_map]
    exact congrArg _ (List.map_congr_left fun a ha => (h a ha).write_eq)

theorem list {as : List α} (h : ∀ a ∈ as, ReadsBack write read a a) :
    ReadsBack (fun as => .list (as.map write)) (list? read) as as := by
  simpa using list_map h

end ReadsBack

end Datum

/-! ## Reading fields -/

namespace Fields

open Datum

variable {α : Type} {write : α → Datum} {read : Datum → Option α} {a b : α} {name : String}
  {fields : List (String × Datum)}

/-- A field that has to be there is read back if its value is. -/
theorem required?_eq_some (h : ReadsBack write read a b)
    (hfield : fields.lookup name = some (write a)) :
    required? (jsonFields fields) name read = some b := by
  rw [required?, lookup_jsonFields, hfield, Option.map_some]
  exact h.read_eq

/-- A field with a default is read back if its value is. -/
theorem given?_eq_some {default : α} (h : ReadsBack write read a b)
    (hfield : fields.lookup name = some (write a)) :
    given? (jsonFields fields) name default read = some b := by
  rw [given?, lookup_jsonFields, hfield, Option.map_some]
  exact h.read_eq

theorem required?_map {β : Type} {f : α → β} (h : ReadsBack write read a b)
    (hfield : fields.lookup name = some (write a)) :
    (required? (jsonFields fields) name read).map f = some (f b) := by
  rw [required?_eq_some h hfield, Option.map_some]

variable {β : Type} {f : α → Option β} {r : β}

theorem required?_bind (h : ReadsBack write read a b)
    (hfield : fields.lookup name = some (write a)) (hf : f b = some r) :
    required? (jsonFields fields) name read >>= f = some r :=
  (Outcome.bind_of_eq_some (required?_eq_some h hfield)).trans hf

theorem given?_bind {default : α} (h : ReadsBack write read a b)
    (hfield : fields.lookup name = some (write a)) (hf : f b = some r) :
    given? (jsonFields fields) name default read >>= f = some r :=
  (Outcome.bind_of_eq_some (given?_eq_some h hfield)).trans hf

end Fields

end Milestones
