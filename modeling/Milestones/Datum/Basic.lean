/-!
# Structured data

Records come in and go out as structured data: JSON text, TOML text, or a part of
either.  `Datum` is what both formats have in common.  Reading a typed value from it is
strict about kinds: a whole number never comes from a fraction, and only an optional
field may be null.

## Main definitions

* `Datum`: a piece of structured data.
* `Leniency`: the details of reading in which one place is laxer than another.
* `Datum.int?`, `Datum.float?`, `Datum.optional?`, ...: reading one value.
* `Datum.fields?`: the fields of a record, by name or by position.
* `Fields.required?`, `Fields.given?`: reading one field.
-/

namespace Milestones

/-- A piece of structured data.  A record keeps repeated names, so that reading can refuse
them.  `unreadable` is well-formed text that stands for no value, such as a number beyond
the doubles; it may be skipped but not read. -/
inductive Datum where
  | null
  | bool (b : Bool)
  | int (n : Int)
  | float (x : Float)
  | text (s : String)
  | list (items : List Datum)
  | record (fields : List (String × Datum))
  | unreadable

/-- What a reader lets pass. -/
structure Leniency where
  /-- After a name that is written as a field, an empty record does for null. -/
  emptyRecord : Bool := false
  /-- A list that gives the fields of a record may go on after the last of them. -/
  surplusItems : Bool := false
deriving DecidableEq

namespace Leniency

/-- Nothing out of the ordinary passes. -/
def strict : Leniency := {}

/-- The rule within a tagged record. -/
def tagged : Leniency := { emptyRecord := true }

/-- The rule within a TOML text. -/
def toml : Leniency := { surplusItems := true }

end Leniency

/-- The fields of a record that a reader knows, each at most once. -/
abbrev Fields := List (String × Datum)

namespace Datum

instance : Inhabited Datum := ⟨null⟩

/-! ## Reading one value -/

/-- A whole number within bounds. -/
def intIn? (least most : Int) : Datum → Option Int
  | int n => if least ≤ n ∧ n ≤ most then some n else none
  | _ => none

/-- A signed 32-bit number. -/
def int32? (d : Datum) : Option Int32 := (intIn? (-2147483648) 2147483647 d).map Int32.ofInt

/-- A signed 64-bit number. -/
def int64? : Datum → Option Int := intIn? (-9223372036854775808) 9223372036854775807

/-- A number below `2 ^ 8`. -/
def byte? (d : Datum) : Option UInt8 := (intIn? 0 255 d).map fun n => UInt8.ofNat n.toNat

/-- A number below `2 ^ 64`. -/
def word? (d : Datum) : Option UInt64 :=
  (intIn? 0 18446744073709551615 d).map fun n => UInt64.ofNat n.toNat

/-- A double; whole numbers do as well. -/
def float? : Datum → Option Float
  | int n => some (Float.ofInt n)
  | float x => some x
  | _ => none

/-- A truth value. -/
def bool? : Datum → Option Bool
  | bool b => some b
  | _ => none

/-- A text. -/
def text? : Datum → Option String
  | text s => some s
  | _ => none

/-- A list of values of one kind. -/
def list? {α : Type} (read : Datum → Option α) : Datum → Option (List α)
  | list items => items.mapM read
  | _ => none

/-- A value or null. -/
def optional? {α : Type} (read : Datum → Option α) : Datum → Option (Option α)
  | null => some none
  | d => (read d).map some

/-- One of a few names: the name alone, or a record with nothing but that name and null. -/
def name? {α : Type} (l : Leniency) (names : List (String × α)) : Datum → Option α
  | text s => names.lookup s
  | record [(s, null)] => names.lookup s
  | record [(s, record [])] => if l.emptyRecord then names.lookup s else none
  | _ => none

/-! ## Records -/

/-- The fields of a record that has the given names.  Unknown fields are skipped and
repeated ones refused.  A list gives the fields by position, in the order of the names. -/
def fields? (l : Leniency) (names : List String) : Datum → Option Fields
  | record fields =>
    let known := fields.filter fun f => names.contains f.1
    if (known.map Prod.fst).Nodup then some known else none
  | list items =>
    if items.length ≤ names.length ∨ l.surplusItems then some (names.zip items) else none
  | _ => none

mutual
/-- No part of the datum is unreadable. -/
def isReadable : Datum → Bool
  | list items => allReadable items
  | record fields => allFieldsReadable fields
  | unreadable => false
  | _ => true

/-- `isReadable` for every item. -/
def allReadable : List Datum → Bool
  | [] => true
  | d :: rest => isReadable d && allReadable rest

/-- `isReadable` for every field. -/
def allFieldsReadable : List (String × Datum) → Bool
  | [] => true
  | (_, d) :: rest => isReadable d && allFieldsReadable rest
end

/-- Takes the tag of a tagged record, wherever it stands, and returns it with the other
fields.  In a list the tag comes first. -/
def untag? (tag : String) (d : Datum) : Option (String × Datum) :=
  if !d.isReadable then none
  else
    match d with
    | record fields =>
      match fields.filter fun f => f.1 == tag with
      | [(_, text s)] => some (s, record (fields.filter fun f => f.1 != tag))
      | _ => none
    | list (text s :: rest) => some (s, list rest)
    | _ => none

end Datum

namespace Fields

/-- A field that has to be there. -/
def required? {α : Type} (fields : Fields) (name : String) (read : Datum → Option α) : Option α :=
  match fields.lookup name with
  | none => none
  | some d => read d

/-- A field that has a default where it is missing. -/
def given? {α : Type} (fields : Fields) (name : String) (default : α)
    (read : Datum → Option α) : Option α :=
  match fields.lookup name with
  | none => some default
  | some d => read d

end Fields

end Milestones
