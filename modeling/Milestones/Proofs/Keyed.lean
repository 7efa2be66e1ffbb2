import Mathlib

/-!
# Looking up entries of a list

The passes over an order of work and the search for cycles keep their entries in lists and look
them up by the milestone they are about.  No two entries are about one milestone, so an entry
is found exactly if it is in the list.

## Main statements

* `find?_key_eq_some_iff`: what is found under a key.
* `find?_key_append`: in the parts of a list, the same is found as in the list.
-/

namespace Milestones

variable {α β : Type} [DecidableEq β] {key : α → β}

/-- What is found under a key is in the list and has the key. -/
theorem of_find?_key {l : List α} {b : β} {a : α}
    (h : l.find? (fun x => key x == b) = some a) : a ∈ l ∧ key a = b :=
  ⟨List.mem_of_find?_eq_some h, by simpa using List.find?_some h⟩

/-- Where no key occurs twice, everything is found under its key. -/
theorem find?_key_eq_some_iff {l : List α} (hl : (l.map key).Nodup) {b : β} {a : α} :
    l.find? (fun x => key x == b) = some a ↔ a ∈ l ∧ key a = b := by
  refine ⟨of_find?_key, ?_⟩
  rintro ⟨ha, rfl⟩
  induction l with
  | nil => cases ha
  | cons c rest ih =>
    obtain ⟨hc, hrest⟩ := List.nodup_cons.1 hl
    rcases List.mem_cons.1 ha with rfl | ha
    · simp
    · have hne : key c ≠ key a := fun e => hc (e ▸ List.mem_map_of_mem ha)
      simp only [List.find?_cons, beq_false_of_ne hne]
      exact ih hrest ha

/-- Under a key that occurs, something is found. -/
theorem exists_find?_key {l : List α} {b : β} (hb : b ∈ l.map key) :
    ∃ a, l.find? (fun x => key x == b) = some a := by
  obtain ⟨a, ha, rfl⟩ := List.mem_map.1 hb
  rw [← Option.isSome_iff_exists, List.find?_isSome]
  exact ⟨a, ha, by simp⟩

/-- Among entries made one for each of several keys, that of a key is found. -/
theorem find?_key_map {f : β → α} (hkey : ∀ b, key (f b) = b) {bs : List β} {b : β}
    (hb : b ∈ bs) : (bs.map f).find? (fun x => key x == b) = some (f b) := by
  have hkeys : (bs.map f).map key = bs := by
    rw [List.map_map]
    exact (List.map_congr_left fun b _ => hkey b).trans bs.map_id
  obtain ⟨a, ha⟩ := exists_find?_key (hkeys ▸ hb)
  obtain ⟨hmem, hid⟩ := of_find?_key ha
  obtain ⟨c, -, rfl⟩ := List.mem_map.1 hmem
  rw [hkey] at hid
  rw [ha, hid]

/-- A key that does not occur in the front part is looked up in the rest. -/
theorem find?_key_append {l l' : List α} {b : β} (hb : b ∉ l.map key) :
    (l ++ l').find? (fun x => key x == b) = l'.find? fun x => key x == b := by
  rw [List.find?_append]
  have hnone : l.find? (fun x => key x == b) = none := by
    refine List.find?_eq_none.2 fun a ha he => hb ?_
    exact eq_of_beq he ▸ List.mem_map_of_mem ha
  rw [hnone, Option.none_or]

end Milestones
