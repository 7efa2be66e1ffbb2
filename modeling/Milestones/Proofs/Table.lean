import Milestones.Proofs.Keyed
import Milestones.Table

/-!
# More laws of tables

A table is the list of its records and nothing else: the table of its own list is the table
itself, and putting back a record that is there changes nothing.  Erasing one identifier after
the other erases them all.

A table has as many records as identifiers, so a record counts exactly if its identifier is new.

Records may be changed all at once if they keep their identifiers.  The result has its records in
the same places, and what comes in or is changed before comes in or is changed after.

## Main definitions

* `Table.map`: all records changed, under the same identifiers.

## Main statements

* `Table.ofList_toList`: a table is the table of its list.
* `Table.insert_of_get?`: putting back a record changes nothing.
* `Table.get?_foldl_erase`: what is left after several identifiers are erased.
* `Table.size_insert_of_new`, `Table.size_erase`, `Table.size_filter`: how many records there are.
* `Table.insert_map`, `Table.modify_map`: changing all records commutes with the operations.
-/

namespace Milestones

variable {α : Type} {kind : RecordKind} [Identified α kind]

namespace Table

theorem mem_toList_iff_get? {t : Table α} {a : α} :
    a ∈ t.toList ↔ t.get? (recordId a) = some a := by
  simp [get?_eq_some_iff]

theorem contains_iff_get? {t : Table α} {id : RecordId kind} :
    t.contains id = true ↔ ∃ a, t.get? id = some a := Option.isSome_iff_exists

theorem contains_of_mem {t : Table α} {a : α} (h : a ∈ t.toList) :
    t.contains (recordId a) = true := contains_iff_get?.2 ⟨a, mem_toList_iff_get?.1 h⟩

theorem contains_insert {t : Table α} {a : α} {id : RecordId kind} :
    (t.insert a).contains id = true ↔ recordId a = id ∨ t.contains id = true := by
  simp only [contains, get?_insert]
  split <;> simp_all

theorem contains_erase {t : Table α} {id id' : RecordId kind} :
    (t.erase id).contains id' = true ↔ id ≠ id' ∧ t.contains id' = true := by
  simp only [contains, get?_erase]
  split <;> simp_all

theorem mem_toList_filter {t : Table α} {keep : α → Bool} {a : α} :
    a ∈ (t.filter keep).toList ↔ a ∈ t.toList ∧ keep a = true := List.mem_filter

theorem mem_toList_erase {t : Table α} {id : RecordId kind} {a : α} :
    a ∈ (t.erase id).toList ↔ a ∈ t.toList ∧ recordId a ≠ id := by
  simp [toList, erase, List.mem_filter]

/-- A record that is put back changes nothing. -/
theorem insert_of_get? {t : Table α} {a : α} (h : t.get? (recordId a) = some a) :
    t.insert a = t := by
  refine ext_get? fun id => ?_
  rw [get?_insert]
  split
  · rename_i hid
    rw [← hid, h]
  · rfl

/-- Of two records that come in under one identifier, the second one counts. -/
theorem insert_insert {a b : α} (h : recordId a = recordId b) (t : Table α) :
    (t.insert a).insert b = t.insert b := by
  refine ext_get? fun id => ?_
  rw [get?_insert, get?_insert, get?_insert, h]
  split <;> rfl

/-- What is erased cannot be erased again. -/
theorem erase_erase (t : Table α) (id : RecordId kind) : (t.erase id).erase id = t.erase id := by
  refine ext_get? fun id' => ?_
  rw [get?_erase, get?_erase]
  split <;> rfl

theorem nodup_ids (t : Table α) : t.ids.Nodup := by
  refine List.pairwise_map.2 (t.ascending.imp fun {a b} hab heq => ?_)
  have hlt := RecordId.lt_iff.1 hab
  rw [heq] at hlt
  exact Nat.lt_irrefl _ hlt

/-- A table is the table of its list. -/
theorem ofList_toList (t : Table α) : ofList t.toList = t := by
  refine ext_get? fun id => ?_
  have hnodup : (t.toList.reverse.map recordId).Nodup := by
    rw [List.map_reverse]
    exact List.nodup_reverse.2 t.nodup_ids
  ext a
  rw [get?_ofList, find?_key_eq_some_iff hnodup, List.mem_reverse, get?_eq_some_iff]

theorem contains_modify (t : Table α) {id : RecordId kind} {change : α → α}
    (h : ∀ a, recordId (change a) = recordId a) (id' : RecordId kind) :
    (t.modify id change).contains id' = t.contains id' := by
  rw [contains, contains, get?_modify t h]
  split <;> simp

/-- A record that is there can be changed before another one comes in or after it. -/
theorem modify_insert (t : Table α) {id : RecordId kind} {change : α → α}
    (h : ∀ a, recordId (change a) = recordId a) (a : α) :
    (t.insert a).modify id change =
      (t.modify id change).insert (if recordId a = id then change a else a) := by
  have hid : recordId (if recordId a = id then change a else a) = recordId a := by
    split
    · exact h a
    · rfl
  refine ext_get? fun id' => ?_
  rw [get?_modify _ h, get?_insert, get?_insert, hid, get?_modify _ h]
  by_cases ha : recordId a = id'
  · subst ha
    by_cases hchange : id = recordId a
    · simp [hchange]
    · simp [hchange, Ne.symm hchange]
  · simp [ha]

/-- Changes that do not interfere can be made in either order. -/
theorem modify_modify (t : Table α) {id id' : RecordId kind} {change change' : α → α}
    (h : ∀ a, recordId (change a) = recordId a) (h' : ∀ a, recordId (change' a) = recordId a)
    (hcomm : ∀ a, change (change' a) = change' (change a)) :
    (t.modify id change).modify id' change' = (t.modify id' change').modify id change := by
  refine ext_get? fun x => ?_
  simp only [get?_modify _ h, get?_modify _ h']
  by_cases hx : id = x
  · by_cases hx' : id' = x
    · simp [hx, hx', Function.comp_def, hcomm]
    · simp [hx, hx']
  · simp [hx]

/-- What is left after several identifiers are erased. -/
theorem get?_foldl_erase (ids : List (RecordId kind)) (t : Table α) (id : RecordId kind) :
    (ids.foldl erase t).get? id = if id ∈ ids then none else t.get? id := by
  induction ids generalizing t with
  | nil => simp
  | cons first rest ih =>
    rw [List.foldl_cons, ih, get?_erase]
    by_cases hrest : id ∈ rest
    · simp [hrest]
    · by_cases hfirst : first = id
      · simp [hfirst]
      · simp [hrest, hfirst, Ne.symm hfirst]

/-- Erasing what a test picks out, record by record, leaves what the test passes. -/
theorem foldl_erase_filter (t : Table α) (pick : α → Bool) :
    ((t.toList.filter pick).map recordId).foldl erase t = t.filter fun a => !pick a := by
  refine ext_get? fun id => ?_
  rw [get?_foldl_erase, get?_filter]
  cases hget : t.get? id with
  | none => simp
  | some a =>
    -- The record under this identifier is the only one that could have been picked.
    have hpick : id ∈ (t.toList.filter pick).map recordId ↔ pick a = true := by
      constructor
      · intro h
        obtain ⟨b, hb, rfl⟩ := List.mem_map.1 h
        obtain ⟨hmem, hpicked⟩ := List.mem_filter.1 hb
        cases hget.symm.trans (mem_toList_iff_get?.1 hmem)
        exact hpicked
      · intro h
        obtain ⟨hmem, rfl⟩ := get?_eq_some_iff.1 hget
        exact List.mem_map_of_mem (List.mem_filter.2 ⟨hmem, h⟩)
    rw [Option.filter_some]
    cases hp : pick a <;> simp [hpick, hp]

/-! ## How many records there are -/

theorem contains_erase_self (t : Table α) (id : RecordId kind) : (t.erase id).contains id = false := by
  rw [← Bool.not_eq_true, contains_erase]
  exact fun h => h.1 rfl

/-- What a record takes the place of may be taken out before. -/
theorem insert_erase (t : Table α) (a : α) : (t.erase (recordId a)).insert a = t.insert a := by
  refine ext_get? fun id => ?_
  rw [get?_insert, get?_insert, get?_erase]
  split <;> rfl

theorem size_eq_card (t : Table α) : t.size = t.ids.toFinset.card := by
  rw [List.toFinset_card_of_nodup t.nodup_ids, ids, List.length_map, size]

/-- A new record is one more. -/
theorem size_insert_of_new {t : Table α} {a : α} (h : t.contains (recordId a) = false) :
    (t.insert a).size = t.size + 1 := by
  have hids : (t.insert a).ids.toFinset = Insert.insert (recordId a) t.ids.toFinset := by
    ext id
    rw [List.mem_toFinset, ← contains_iff, contains_insert, Finset.mem_insert, List.mem_toFinset,
      ← contains_iff, eq_comm]
  have hnew : recordId a ∉ t.ids.toFinset := by
    rw [List.mem_toFinset, ← contains_iff, h]
    exact Bool.false_ne_true
  rw [size_eq_card, hids, Finset.card_insert_of_notMem hnew, ← size_eq_card]

/-- A record that is taken out is one less. -/
theorem size_erase {t : Table α} {id : RecordId kind} (h : t.contains id = true) :
    (t.erase id).size + 1 = t.size := by
  obtain ⟨a, ha⟩ := contains_iff_get?.1 h
  obtain rfl := recordId_of_get? ha
  rw [← size_insert_of_new (t.contains_erase_self _), insert_erase, insert_of_get? ha]

/-- A record in the place of another one makes no difference. -/
theorem size_insert_of_contains {t : Table α} {a : α} (h : t.contains (recordId a) = true) :
    (t.insert a).size = t.size := by
  rw [← insert_erase, size_insert_of_new (t.contains_erase_self _), size_erase h]

/-- What a test picks out and what it leaves make the whole. -/
theorem size_filter (t : Table α) (pick : α → Bool) :
    (t.filter fun a => !pick a).size + (t.toList.filter pick).length = t.size := by
  rw [Nat.add_comm]
  exact (List.length_eq_length_filter_add pick).symm

/-! ## All records at once -/

section Map

variable {f : α → α} (hf : ∀ a, recordId (f a) = recordId a)

/-- All records changed, under the same identifiers. -/
def map (t : Table α) (f : α → α) (hf : ∀ a, recordId (f a) = recordId a) : Table α :=
  ⟨t.rows.map f, List.pairwise_map.2 (t.ascending.imp fun h => by rwa [hf, hf])⟩

theorem toList_map (t : Table α) : (t.map f hf).toList = t.toList.map f := rfl

@[simp] theorem get?_map (t : Table α) (id : RecordId kind) :
    (t.map f hf).get? id = (t.get? id).map f := by
  rw [get?, map, List.find?_map, get?]
  simp only [Function.comp_def, hf]

@[simp] theorem contains_map (t : Table α) (id : RecordId kind) :
    (t.map f hf).contains id = t.contains id := by
  rw [contains, contains, get?_map, Option.isSome_map]

theorem insert_map (t : Table α) (a : α) : (t.insert a).map f hf = (t.map f hf).insert (f a) := by
  refine ext_get? fun id => ?_
  rw [get?_map, get?_insert, get?_insert, get?_map, hf]
  split <;> rfl

theorem modify_map (t : Table α) {id : RecordId kind} {change : α → α}
    (h : ∀ a, recordId (change a) = recordId a) (hcomm : ∀ a, f (change a) = change (f a)) :
    (t.modify id change).map f hf = (t.map f hf).modify id change := by
  refine ext_get? fun id' => ?_
  rw [get?_map, get?_modify _ h, get?_modify _ h, get?_map]
  split
  · rw [Option.map_map, Option.map_map]
    exact congrArg (Option.map · _) (funext hcomm)
  · rfl

end Map

end Table

end Milestones
