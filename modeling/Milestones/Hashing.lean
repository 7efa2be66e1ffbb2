import Milestones.Table

/-!
# Hash maps

Some tables are kept as hash maps.  What is found in a hash map under a key does not depend on how
it is arranged.  The order in which its entries are gone through does, and it is arbitrary: a hash
function that is drawn at random gives each key its place, and when the map grows, all of them get
other ones.  Wherever such an order can be seen, the places are a parameter, and what is proved
holds for all of them.

## Main definitions

* `Hashing`: the places of the keys.
* `Hashing.listed`: the records of a table in the order of their places.
-/

namespace Milestones

/-- The places that a hash map with some number of entries gives to the numbers of its keys; if
nothing else is said, the numbers themselves. -/
structure Hashing where
  place : (entries key : Nat) → Nat := fun _ key => key

namespace Hashing

variable {α : Type}

/-- Puts a record in front of the first one that does not have an earlier place. -/
def insertByPlace (place : α → Nat) (a : α) : List α → List α
  | [] => [a]
  | b :: rest => if place a ≤ place b then a :: b :: rest else b :: insertByPlace place a rest

theorem perm_insertByPlace (place : α → Nat) (a : α) (l : List α) :
    (insertByPlace place a l).Perm (a :: l) := by
  induction l with
  | nil => exact .refl _
  | cons b rest ih =>
    rw [insertByPlace]
    split
    · exact .refl _
    · exact (ih.cons b).trans (.swap a b rest)

variable {kind : RecordKind} [Identified α kind]

/-- The records in the order in which a hash map with these places goes through them. -/
def listed (h : Hashing) (t : Table α) : List α :=
  t.toList.foldr (insertByPlace fun a => h.place t.size (recordId a).value) []

theorem perm_listed (h : Hashing) (t : Table α) : (h.listed t).Perm t.toList := by
  rw [listed]
  induction t.toList with
  | nil => exact .refl _
  | cons a rest ih => exact (perm_insertByPlace _ a _).trans (ih.cons a)

@[simp] theorem mem_listed {h : Hashing} {t : Table α} {a : α} : a ∈ h.listed t ↔ a ∈ t.toList :=
  (h.perm_listed t).mem_iff

end Hashing

end Milestones
