import Milestones.RecordId

/-!
# Tables of records

A table holds records by their identifier, in ascending order and each identifier once.
The identifier is part of the record, so a record can never stand under a wrong one.

## Main definitions

* `Identified`: records that carry an identifier.
* `Table α`: an ascending list of records.
* `Table.get?`, `Table.insert`, `Table.erase`: the operations, with one law each in terms of
  `get?`.

## Main statements

* `Table.get?_eq_some_iff`: a record is found exactly under its own identifier.
* `Table.ext_get?`: tables that give the same answers are equal.
-/

namespace Milestones

/-- Records that carry an identifier. -/
class Identified (α : Type) (kind : outParam RecordKind) where
  recordId : α → RecordId kind

export Identified (recordId)

variable {α : Type} {kind : RecordKind} [Identified α kind]

/-- Records in ascending order of their identifiers. -/
structure Table (α : Type) {kind : RecordKind} [Identified α kind] where
  rows : List α
  ascending : rows.Pairwise fun a b => recordId a < recordId b

namespace Table

@[ext] theorem ext {s t : Table α} (h : s.rows = t.rows) : s = t := by
  cases s; cases t; simp_all

instance [DecidableEq α] : DecidableEq (Table α) := fun s t =>
  if h : s.rows = t.rows then isTrue (ext h) else isFalse fun e => h (e ▸ rfl)

/-- The table without records. -/
def empty : Table α := ⟨[], .nil⟩

instance : Inhabited (Table α) := ⟨empty⟩

/-- The records in ascending order. -/
def toList (t : Table α) : List α := t.rows

/-- The identifiers in ascending order. -/
def ids (t : Table α) : List (RecordId kind) := t.rows.map recordId

/-- The number of records. -/
def size (t : Table α) : Nat := t.rows.length

/-- The record with the given identifier. -/
def get? (t : Table α) (id : RecordId kind) : Option α := t.rows.find? fun a => recordId a == id

/-- There is a record with the given identifier. -/
def contains (t : Table α) (id : RecordId kind) : Bool := (t.get? id).isSome

/-- Puts a record in its place among ascending ones, instead of one with the same identifier. -/
def insertRow (a : α) : List α → List α
  | [] => [a]
  | b :: rest =>
    if recordId a < recordId b then a :: b :: rest
    else if recordId a = recordId b then a :: rest
    else b :: insertRow a rest

theorem mem_of_mem_insertRow {a b : α} {rows : List α} (h : b ∈ insertRow a rows) :
    b = a ∨ b ∈ rows := by
  induction rows with
  | nil => simpa [insertRow] using h
  | cons c rest ih =>
    unfold insertRow at h
    split at h
    · simpa using h
    · split at h
      · rcases List.mem_cons.1 h with h | h
        · exact .inl h
        · exact .inr (List.mem_cons_of_mem _ h)
      · rcases List.mem_cons.1 h with h | h
        · exact .inr (h ▸ List.mem_cons_self)
        · rcases ih h with h | h
          · exact .inl h
          · exact .inr (List.mem_cons_of_mem _ h)

theorem pairwise_insertRow {a : α} {rows : List α}
    (h : rows.Pairwise fun a b => recordId a < recordId b) :
    (insertRow a rows).Pairwise fun a b => recordId a < recordId b := by
  induction rows with
  | nil => simp [insertRow]
  | cons b rest ih =>
    obtain ⟨hb, hrest⟩ := List.pairwise_cons.1 h
    unfold insertRow
    split
    · rename_i hab
      refine List.pairwise_cons.2 ⟨fun c hc => ?_, h⟩
      rcases List.mem_cons.1 hc with rfl | hc
      · exact hab
      · exact RecordId.lt_iff.2 (Nat.lt_trans (RecordId.lt_iff.1 hab) (RecordId.lt_iff.1 (hb c hc)))
    · rename_i hab
      split
      · rename_i heq
        exact List.pairwise_cons.2 ⟨fun c hc => heq ▸ hb c hc, hrest⟩
      · rename_i hne
        refine List.pairwise_cons.2 ⟨fun c hc => ?_, ih hrest⟩
        rcases mem_of_mem_insertRow hc with rfl | hc
        · simp only [RecordId.lt_iff] at hab ⊢
          have : (recordId c).value ≠ (recordId b).value := fun e => hne (RecordId.ext e)
          omega
        · exact hb c hc

/-- Adds a record, or replaces the one with its identifier. -/
def insert (t : Table α) (a : α) : Table α := ⟨insertRow a t.rows, pairwise_insertRow t.ascending⟩

/-- Changes the record with the given identifier, if there is one. -/
def modify (t : Table α) (id : RecordId kind) (change : α → α) : Table α :=
  match t.get? id with
  | none => t
  | some a => t.insert (change a)

/-- Removes the record with the given identifier, if there is one. -/
def erase (t : Table α) (id : RecordId kind) : Table α :=
  ⟨t.rows.filter fun a => recordId a != id, t.ascending.filter _⟩

/-- Keeps the records that pass a test. -/
def filter (t : Table α) (keep : α → Bool) : Table α :=
  ⟨t.rows.filter keep, t.ascending.filter _⟩

/-- The table of some records; of two with one identifier the later one counts. -/
def ofList (as : List α) : Table α := as.foldl insert empty

/-! ## Laws -/

theorem get?_insertRow (a : α) (rows : List α)
    (h : rows.Pairwise fun a b => recordId a < recordId b) (id : RecordId kind) :
    (insertRow a rows).find? (fun b => recordId b == id) =
      if recordId a = id then some a else rows.find? fun b => recordId b == id := by
  induction rows with
  | nil => by_cases e : recordId a = id <;> simp [insertRow, e]
  | cons b rest ih =>
    obtain ⟨hb, hrest⟩ := List.pairwise_cons.1 h
    unfold insertRow
    split
    · by_cases e : recordId a = id <;> simp [e]
    · split
      · rename_i heq
        by_cases e : recordId a = id
        · simp [e]
        · have : recordId b ≠ id := heq ▸ e
          simp [e, this]
      · rename_i hne
        by_cases e : recordId b = id
        · have : recordId a ≠ id := fun e' => hne (e'.trans e.symm)
          simp [e, this]
        · have hbeq : (recordId b == id) = false := by simp [e]
          simp only [List.find?, hbeq]
          exact ih hrest

@[simp] theorem get?_insert (t : Table α) (a : α) (id : RecordId kind) :
    (t.insert a).get? id = if recordId a = id then some a else t.get? id :=
  get?_insertRow a t.rows t.ascending id

@[simp] theorem get?_empty (id : RecordId kind) : (empty : Table α).get? id = none := rfl

@[simp] theorem get?_erase (t : Table α) (id id' : RecordId kind) :
    (t.erase id).get? id' = if id = id' then none else t.get? id' := by
  simp only [get?, erase, List.find?_filter]
  split
  · rename_i h
    subst h
    simp [List.find?_eq_none]
  · rename_i h
    congr 1
    funext a
    by_cases e : recordId a = id'
    · subst e; simp [Ne.symm h]
    · simp [e]

/-- A record that is found has the identifier that was looked for. -/
theorem recordId_of_get? {t : Table α} {id : RecordId kind} {a : α} (h : t.get? id = some a) :
    recordId a = id := by
  simpa using List.find?_some h

theorem mem_of_get? {t : Table α} {id : RecordId kind} {a : α} (h : t.get? id = some a) :
    a ∈ t.toList := List.mem_of_find?_eq_some h

/-- In ascending records, each one is found under its own identifier. -/
theorem find?_of_mem {a : α} {rows : List α}
    (h : rows.Pairwise fun a b => recordId a < recordId b) (ha : a ∈ rows) :
    rows.find? (fun b => recordId b == recordId a) = some a := by
  induction rows with
  | nil => cases ha
  | cons b rest ih =>
    obtain ⟨hb, hrest⟩ := List.pairwise_cons.1 h
    rcases List.mem_cons.1 ha with rfl | ha
    · simp
    · have hlt := RecordId.lt_iff.1 (hb a ha)
      have hne : recordId b ≠ recordId a := fun e => by rw [e] at hlt; omega
      simp [hne, ih hrest ha]

/-- A record is found exactly under its own identifier. -/
theorem get?_eq_some_iff {t : Table α} {id : RecordId kind} {a : α} :
    t.get? id = some a ↔ a ∈ t.toList ∧ recordId a = id := by
  constructor
  · exact fun h => ⟨mem_of_get? h, recordId_of_get? h⟩
  · rintro ⟨ha, rfl⟩
    exact find?_of_mem t.ascending ha

theorem contains_iff {t : Table α} {id : RecordId kind} :
    t.contains id = true ↔ id ∈ t.ids := by
  simp only [contains, ids, List.mem_map, Option.isSome_iff_exists, get?_eq_some_iff, toList]

theorem mem_toList_insert {t : Table α} {a b : α} :
    b ∈ (t.insert a).toList ↔ b = a ∨ b ∈ t.toList ∧ recordId b ≠ recordId a := by
  have hb : ∀ s : Table α, b ∈ s.toList ↔ s.get? (recordId b) = some b := fun s => by
    simp [get?_eq_some_iff]
  rw [hb, hb, get?_insert]
  by_cases e : recordId a = recordId b
  · simp only [e, if_true, Option.some.injEq, ne_eq, not_true_eq_false, and_false, or_false]
    exact eq_comm
  · simp only [if_neg e, ne_eq, Ne.symm e, not_false_eq_true, and_true]
    exact ⟨.inr, fun h => h.resolve_left fun h => e (h ▸ rfl)⟩

/-- Ascending records are determined by what is among them. -/
theorem eq_of_forall_mem_iff : ∀ {rows rows' : List α},
    rows.Pairwise (fun a b => recordId a < recordId b) →
    rows'.Pairwise (fun a b => recordId a < recordId b) →
    (∀ a, a ∈ rows ↔ a ∈ rows') → rows = rows'
  | [], [], _, _, _ => rfl
  | [], b :: _, _, _, h => by simpa using (h b).2 List.mem_cons_self
  | a :: _, [], _, _, h => by simpa using (h a).1 List.mem_cons_self
  | a :: rest, b :: rest', hs, hs', h => by
    obtain ⟨ha, hrest⟩ := List.pairwise_cons.1 hs
    obtain ⟨hb, hrest'⟩ := List.pairwise_cons.1 hs'
    have hab : a = b := by
      rcases List.mem_cons.1 ((h a).1 List.mem_cons_self) with e | h1
      · exact e
      · rcases List.mem_cons.1 ((h b).2 List.mem_cons_self) with e | h2
        · exact e.symm
        · have := RecordId.lt_iff.1 (hb a h1)
          have := RecordId.lt_iff.1 (ha b h2)
          omega
    subst hab
    rw [eq_of_forall_mem_iff hrest hrest' fun x => ?_]
    have irrefl : ∀ {l : List α}, (∀ y ∈ l, recordId a < recordId y) → a ∉ l := fun hl ha' => by
      have := RecordId.lt_iff.1 (hl a ha'); omega
    by_cases e : x = a
    · subst e
      exact ⟨fun hx => absurd hx (irrefl ha), fun hx => absurd hx (irrefl hb)⟩
    · simpa [e] using h x

/-- Two tables are equal if they give the same answers. -/
theorem ext_get? {s t : Table α} (h : ∀ id, s.get? id = t.get? id) : s = t := by
  refine ext (eq_of_forall_mem_iff s.ascending t.ascending fun a => ?_)
  have hmem : ∀ t : Table α, a ∈ t.rows ↔ t.get? (recordId a) = some a := fun t => by
    simp [get?_eq_some_iff, toList]
  rw [hmem, hmem, h]

theorem get?_filter (t : Table α) (keep : α → Bool) (id : RecordId kind) :
    (t.filter keep).get? id = (t.get? id).filter keep := by
  ext a
  simp [get?_eq_some_iff, toList, filter, Option.filter_eq_some_iff, and_right_comm]

/-- A change that keeps the identifier takes effect under that identifier alone. -/
theorem get?_modify (t : Table α) {id : RecordId kind} {change : α → α}
    (h : ∀ a, recordId (change a) = recordId a) (id' : RecordId kind) :
    (t.modify id change).get? id' = if id = id' then (t.get? id').map change else t.get? id' := by
  unfold modify
  split
  · rename_i hnone
    split
    · rename_i e
      simp [← e, hnone]
    · rfl
  · rename_i a ha
    rw [get?_insert, h, recordId_of_get? ha]
    split
    · rename_i e
      simp [← e, ha]
    · rfl

/-- Of the records that come in one after the other, the last one with an identifier counts. -/
theorem get?_foldl_insert (as : List α) (t : Table α) (id : RecordId kind) :
    (as.foldl insert t).get? id =
      (as.reverse.find? fun a => recordId a == id).or (t.get? id) := by
  induction as generalizing t with
  | nil => simp
  | cons a rest ih =>
    rw [List.foldl_cons, ih, get?_insert, List.reverse_cons, List.find?_append, Option.or_assoc]
    by_cases e : recordId a = id <;> simp [e]

/-- The later of two records with one identifier counts. -/
theorem get?_ofList (as : List α) (id : RecordId kind) :
    (ofList as).get? id = as.reverse.find? fun a => recordId a == id := by
  rw [ofList, get?_foldl_insert, get?_empty, Option.or_none]

/-- The rows of inner tables, listed one table after the other, ascend by their two identifiers. -/
theorem pairwise_flatMap {β γ : Type} {kind' : RecordKind} [Identified β kind'] (t : Table α)
    {inner : α → Table β} {row : α → β → γ} {r : γ → γ → Prop}
    (hinner : ∀ a b b', recordId b < recordId b' → r (row a b) (row a b'))
    (houter : ∀ a a' b b', recordId a < recordId a' → r (row a b) (row a' b')) :
    (t.toList.flatMap fun a => (inner a).toList.map (row a)).Pairwise r := by
  rw [List.pairwise_flatMap]
  constructor
  · intro a _
    exact List.pairwise_map.2 ((inner a).ascending.imp fun h => hinner a _ _ h)
  · refine t.ascending.imp fun {a a'} h => ?_
    intro x hx y hy
    obtain ⟨b, -, rfl⟩ := List.mem_map.1 hx
    obtain ⟨b', -, rfl⟩ := List.mem_map.1 hy
    exact houter a a' b b' h

end Table

end Milestones
